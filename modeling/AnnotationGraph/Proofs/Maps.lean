import AnnotationGraph.Data.OrderedMap
import Mathlib.Data.List.Sort

/-!
# Entries and look-ups of ordered maps

The look-up of a map sees exactly its entries, and a map is built from an ascending list by
putting its entries one after the other.

* `get?_eq_some_iff`   what is found under a key is its entry;
* `eq_of_get?`         a map is determined by what is found in it;
* `ofList_entries`     an ascending list is the list of entries of its map;
* `size_insert`        a new entry counts as one;
* `mem_keys_add`       the elements of a set after one is put;
* `mem_keys_union`     the elements of either of two sets;
* `eq_of_mem_keys`     a set is determined by its elements.
-/

namespace AnnotationGraph

namespace OrderedMap

variable {κ α : Type} [Ord κ]

section
variable [Std.LawfulEqOrd κ]

theorem mem_of_find {k : κ} {v : α} {l : List (κ × α)} (h : find k l = some v) : (k, v) ∈ l := by
  induction l with
  | nil => exact absurd h (by simp [find])
  | cons e rest ih =>
    unfold find at h
    split at h
    next heq =>
      have hk : k = e.1 := Std.LawfulEqCmp.eq_of_compare heq
      have hv : e.2 = v := Option.some.inj h
      rw [hk, ← hv]
      exact List.mem_cons_self
    next => exact List.mem_cons_of_mem _ (ih h)

theorem find_of_mem {k : κ} {v : α} {l : List (κ × α)}
    (hl : l.Pairwise fun a b => compare a.1 b.1 = .lt) (h : (k, v) ∈ l) : find k l = some v := by
  induction l with
  | nil => exact absurd h (by simp)
  | cons e rest ih =>
    obtain ⟨he, hrest⟩ := List.pairwise_cons.1 hl
    rcases List.mem_cons.1 h with rfl | h
    · rw [find, if_pos Std.ReflCmp.compare_self]
    · have hlt : compare e.1 k = .lt := he (k, v) h
      have hne : compare k e.1 ≠ .eq := by
        intro heq
        have hk : k = e.1 := Std.LawfulEqCmp.eq_of_compare heq
        have hself : compare e.1 k = .eq := hk ▸ Std.ReflCmp.compare_self
        rw [hself] at hlt
        exact absurd hlt (by decide)
      rw [find, if_neg hne]
      exact ih hrest h

theorem get?_eq_some_iff {m : OrderedMap κ α} {k : κ} {v : α} :
    m.get? k = some v ↔ (k, v) ∈ m.entries :=
  ⟨mem_of_find, find_of_mem m.ascending⟩

end

/-! ### Maps with the same entries -/

theorem eq_of_mem_iff [Std.TransOrd κ] {l m : List (κ × α)}
    (hl : l.Pairwise fun a b => compare a.1 b.1 = .lt)
    (hm : m.Pairwise fun a b => compare a.1 b.1 = .lt) (h : ∀ e, e ∈ l ↔ e ∈ m) : l = m := by
  have hne : ∀ a b : κ × α, compare a.1 b.1 = .lt → compare b.1 a.1 ≠ .lt := by
    intro a b hab hba
    rw [Std.OrientedCmp.gt_iff_lt.2 hab] at hba
    exact nomatch hba
  have hirrefl : Std.Irrefl fun a b : κ × α => compare a.1 b.1 = .lt :=
    ⟨fun a ha => hne a a ha ha⟩
  have hantisymm : Std.Antisymm fun a b : κ × α => compare a.1 b.1 = .lt :=
    ⟨fun a b hab hba => absurd hba (hne a b hab)⟩
  exact hl.eq_of_mem_iff hm h

theorem eq_of_get? [Std.TransOrd κ] [Std.LawfulEqOrd κ] {m n : OrderedMap κ α}
    (h : ∀ k, m.get? k = n.get? k) : m = n := by
  apply eq_of_entries
  apply eq_of_mem_iff m.ascending n.ascending
  intro e
  rw [← get?_eq_some_iff, ← get?_eq_some_iff, h]

theorem length_put {k : κ} {v : α} {l : List (κ × α)} (h : find k l = none) :
    (put k v l).length = l.length + 1 := by
  induction l with
  | nil => rfl
  | cons e rest ih =>
    unfold find at h
    split at h
    next => cases h
    next hne =>
      unfold put
      split
      next => rfl
      next heq => exact absurd heq hne
      next => rw [List.length_cons, ih h, List.length_cons]

variable [Std.TransOrd κ] [Std.LawfulEqOrd κ]

theorem size_insert {m : OrderedMap κ α} {k : κ} (v : α) (h : m.get? k = none) :
    (m.insert k v).size = m.size + 1 :=
  length_put h

omit [Std.LawfulEqOrd κ] in
theorem put_last {k : κ} {v : α} {l : List (κ × α)} (h : ∀ e ∈ l, compare e.1 k = .lt) :
    put k v l = l ++ [(k, v)] := by
  induction l with
  | nil => rfl
  | cons e rest ih =>
    have hgt : compare k e.1 = .gt := Std.OrientedCmp.gt_iff_lt.2 (h e List.mem_cons_self)
    have hrest := ih fun x hx => h x (List.mem_cons_of_mem _ hx)
    rw [put, hgt, List.cons_append, ← hrest]

/-- Putting the entries of an ascending list into a map whose keys all come before it. -/
theorem foldl_insert_entries (l : List (κ × α)) (m : OrderedMap κ α)
    (h : (m.entries ++ l).Pairwise fun a b => compare a.1 b.1 = .lt) :
    (l.foldl (fun m e => m.insert e.1 e.2) m).entries = m.entries ++ l := by
  induction l generalizing m with
  | nil => exact (List.append_nil _).symm
  | cons e rest ih =>
    have hput : (m.insert e.1 e.2).entries = m.entries ++ [e] :=
      put_last fun x hx => (List.pairwise_append.1 h).2.2 x hx e List.mem_cons_self
    have happ : (m.insert e.1 e.2).entries ++ rest = m.entries ++ e :: rest := by
      rw [hput, List.append_assoc, List.singleton_append]
    rw [List.foldl_cons, ih, happ]
    rw [happ]
    exact h

theorem ofList_entries {l : List (κ × α)} (h : l.Pairwise fun a b => compare a.1 b.1 = .lt) :
    (ofList l).entries = l :=
  foldl_insert_entries l empty h

theorem mem_of_mem_foldl_insert {l : List (κ × α)} {m : OrderedMap κ α} {e : κ × α}
    (h : e ∈ (l.foldl (fun m e => m.insert e.1 e.2) m).entries) : e ∈ m.entries ∨ e ∈ l := by
  induction l generalizing m with
  | nil => exact .inl h
  | cons first rest ih =>
    rcases ih h with hm | hrest
    · rcases mem_of_mem_put hm with rfl | hm
      · exact .inr List.mem_cons_self
      · exact .inl hm
    · exact .inr (List.mem_cons_of_mem _ hrest)

theorem mem_of_mem_ofList {l : List (κ × α)} {e : κ × α} (h : e ∈ (ofList l).entries) : e ∈ l :=
  (mem_of_mem_foldl_insert h).resolve_left (List.not_mem_nil)

theorem mem_entries_insert {m : OrderedMap κ α} {k j : κ} {v w : α} :
    (j, w) ∈ (m.insert k v).entries ↔ j = k ∧ w = v ∨ j ≠ k ∧ (j, w) ∈ m.entries := by
  rw [← get?_eq_some_iff, ← get?_eq_some_iff, get?_insert]
  by_cases hj : j = k
  · have heq : compare j k = .eq := hj ▸ Std.ReflCmp.compare_self
    rw [if_pos heq, Option.some.injEq]
    simp [hj, eq_comm]
  · have hne : compare j k ≠ .eq := fun h => hj (Std.LawfulEqCmp.eq_of_compare h)
    rw [if_neg hne]
    simp [hj]

end OrderedMap

namespace OrderedSet

variable {κ : Type} [Ord κ] [Std.TransOrd κ] [Std.LawfulEqOrd κ]

omit [Std.TransOrd κ] [Std.LawfulEqOrd κ] in
theorem mem_keys_iff {s : OrderedSet κ} {k : κ} :
    k ∈ OrderedMap.keys s ↔ (k, ()) ∈ s.entries := by
  rw [OrderedMap.keys, List.mem_map]
  exact ⟨fun ⟨e, he, hk⟩ => hk ▸ he, fun h => ⟨_, h, rfl⟩⟩

omit [Std.LawfulEqOrd κ] in
theorem eq_of_mem_keys {s t : OrderedSet κ}
    (h : ∀ k, k ∈ OrderedMap.keys s ↔ k ∈ OrderedMap.keys t) : s = t := by
  apply OrderedMap.eq_of_entries
  apply OrderedMap.eq_of_mem_iff s.ascending t.ascending
  intro e
  have hk := h e.1
  rw [mem_keys_iff, mem_keys_iff] at hk
  exact hk

theorem mem_keys_add {s : OrderedSet κ} {k j : κ} :
    j ∈ OrderedMap.keys (s.add k) ↔ j = k ∨ j ∈ OrderedMap.keys s := by
  rw [mem_keys_iff, mem_keys_iff, add, OrderedMap.mem_entries_insert]
  by_cases hj : j = k
  · simp [hj]
  · simp [hj]

theorem mem_keys_foldl_add (l : List κ) (s : OrderedSet κ) {k : κ} :
    k ∈ OrderedMap.keys (l.foldl add s) ↔ k ∈ OrderedMap.keys s ∨ k ∈ l := by
  induction l generalizing s with
  | nil => simp
  | cons j rest ih =>
    rw [List.foldl_cons, ih, mem_keys_add, List.mem_cons]
    exact or_assoc.trans or_left_comm

theorem mem_keys_union {s t : OrderedSet κ} {k : κ} :
    k ∈ OrderedMap.keys (s.union t) ↔ k ∈ OrderedMap.keys s ∨ k ∈ OrderedMap.keys t :=
  mem_keys_foldl_add t.keys s

theorem keys_ofList {l : List κ} (h : l.Pairwise fun a b => compare a b = .lt) :
    OrderedMap.keys (ofList l) = l := by
  have hentries : (l.map (·, ())).Pairwise fun a b => compare a.1 b.1 = .lt :=
    List.pairwise_map.2 h
  have hfold : (ofList l).entries = l.map (·, ()) := by
    rw [← OrderedMap.ofList_entries hentries, OrderedMap.ofList, List.foldl_map]
    rfl
  rw [OrderedMap.keys, hfold, List.map_map]
  exact List.map_id l

omit [Std.TransOrd κ] in
theorem contains_iff {s : OrderedSet κ} {k : κ} : s.contains k ↔ k ∈ OrderedMap.keys s := by
  rw [mem_keys_iff, ← OrderedMap.get?_eq_some_iff, OrderedMap.contains, Option.isSome_iff_exists]
  exact ⟨fun ⟨_, h⟩ => h, fun h => ⟨(), h⟩⟩

end OrderedSet

end AnnotationGraph
