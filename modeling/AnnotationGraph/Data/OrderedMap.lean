/-!
# Ordered maps

A finite map is the list of its entries in ascending key order, each key once.  The order is part
of the type, so two maps with the same entries are equal and a walk over a map is a walk in key
order.

* `OrderedMap κ α` — the type;
* `insert` — puts an entry, replacing an older one;
* `get?`, `keys`, `values`, `size` — the views.

`OrderedSet κ` is the map that holds keys alone.
-/

namespace AnnotationGraph

/-- A finite map whose entries are listed with strictly ascending keys. -/
structure OrderedMap (κ α : Type) [Ord κ] where
  entries : List (κ × α)
  ascending : entries.Pairwise fun a b => compare a.1 b.1 = .lt

/-- A finite set, listed in ascending order. -/
abbrev OrderedSet (κ : Type) [Ord κ] := OrderedMap κ Unit

namespace OrderedMap

variable {κ α : Type} [Ord κ]

theorem eq_of_entries {m n : OrderedMap κ α} (h : m.entries = n.entries) : m = n := by
  cases m; cases n; cases h; rfl

instance [DecidableEq κ] [DecidableEq α] : DecidableEq (OrderedMap κ α) := fun m n =>
  decidable_of_iff (m.entries = n.entries) ⟨eq_of_entries, fun h => h ▸ rfl⟩

def empty : OrderedMap κ α := ⟨[], .nil⟩

instance : EmptyCollection (OrderedMap κ α) := ⟨empty⟩
instance : Inhabited (OrderedMap κ α) := ⟨empty⟩

def find (k : κ) : List (κ × α) → Option α
  | [] => none
  | e :: rest => if compare k e.1 = .eq then some e.2 else find k rest

def get? (m : OrderedMap κ α) (k : κ) : Option α := find k m.entries

def contains (m : OrderedMap κ α) (k : κ) : Bool := (m.get? k).isSome

def size (m : OrderedMap κ α) : Nat := m.entries.length

def keys (m : OrderedMap κ α) : List κ := m.entries.map Prod.fst

def values (m : OrderedMap κ α) : List α := m.entries.map Prod.snd

/-! ### Insertion -/

def put (k : κ) (v : α) : List (κ × α) → List (κ × α)
  | [] => [(k, v)]
  | e :: rest =>
    match compare k e.1 with
    | .lt => (k, v) :: e :: rest
    | .eq => (k, v) :: rest
    | .gt => e :: put k v rest

theorem mem_of_mem_put {k : κ} {v : α} {x : κ × α} {l : List (κ × α)} (h : x ∈ put k v l) :
    x = (k, v) ∨ x ∈ l := by
  induction l with
  | nil => exact .inl (by simpa [put] using h)
  | cons e rest ih =>
    unfold put at h
    split at h
    · simpa using h
    · rcases List.mem_cons.1 h with h | h
      · exact .inl h
      · exact .inr (List.mem_cons_of_mem _ h)
    · rcases List.mem_cons.1 h with h | h
      · exact .inr (h ▸ List.mem_cons_self)
      · exact (ih h).imp_right (List.mem_cons_of_mem _)

variable [Std.TransOrd κ] [Std.LawfulEqOrd κ]

theorem pairwise_put {k : κ} {v : α} {l : List (κ × α)}
    (h : l.Pairwise fun a b => compare a.1 b.1 = .lt) :
    (put k v l).Pairwise fun a b => compare a.1 b.1 = .lt := by
  induction l with
  | nil => simp [put]
  | cons e rest ih =>
    obtain ⟨he, hrest⟩ := List.pairwise_cons.1 h
    unfold put
    split
    next hlt =>
      refine List.pairwise_cons.2 ⟨fun x hx => ?_, h⟩
      rcases List.mem_cons.1 hx with rfl | hx
      · exact hlt
      · exact Std.TransCmp.lt_trans hlt (he x hx)
    next heq =>
      have hk : k = e.1 := Std.LawfulEqCmp.eq_of_compare heq
      exact List.pairwise_cons.2 ⟨fun x hx => hk ▸ he x hx, hrest⟩
    next hgt =>
      refine List.pairwise_cons.2 ⟨fun x hx => ?_, ih hrest⟩
      rcases mem_of_mem_put hx with rfl | hx
      · exact Std.OrientedCmp.gt_iff_lt.1 hgt
      · exact he x hx

def insert (m : OrderedMap κ α) (k : κ) (v : α) : OrderedMap κ α :=
  ⟨put k v m.entries, pairwise_put m.ascending⟩

/-- The map of a list of entries; of two under one key the later stays. -/
def ofList (l : List (κ × α)) : OrderedMap κ α :=
  l.foldl (fun m e => m.insert e.1 e.2) empty

/-! ### Look-up after an insertion -/

omit [Std.TransOrd κ] [Std.LawfulEqOrd κ] in
@[simp] theorem get?_empty (k : κ) : (empty : OrderedMap κ α).get? k = none := rfl

omit [Std.TransOrd κ] in
theorem find_put {k j : κ} {v : α} {l : List (κ × α)}
    (h : l.Pairwise fun a b => compare a.1 b.1 = .lt) :
    find j (put k v l) = if compare j k = .eq then some v else find j l := by
  induction l with
  | nil => simp [put, find]
  | cons e rest ih =>
    obtain ⟨he, hrest⟩ := List.pairwise_cons.1 h
    unfold put
    split
    next hlt => simp [find]
    next heq =>
      have hk : k = e.1 := Std.LawfulEqCmp.eq_of_compare heq
      subst hk
      by_cases hj : compare j e.1 = .eq <;> simp [find, hj]
    next hgt =>
      have hne : compare k e.1 ≠ .eq := by rw [hgt]; decide
      by_cases hj : compare j e.1 = .eq
      · have hje : j = e.1 := Std.LawfulEqCmp.eq_of_compare hj
        have hjk : compare j k ≠ .eq := fun hjk =>
          hne ((Std.LawfulEqCmp.eq_of_compare hjk : j = k) ▸ hj)
        simp [find, hj, hjk]
      · simp [find, hj, ih hrest]

theorem get?_insert (m : OrderedMap κ α) (k j : κ) (v : α) :
    (m.insert k v).get? j = if compare j k = .eq then some v else m.get? j :=
  find_put m.ascending

@[simp] theorem get?_insert_self (m : OrderedMap κ α) (k : κ) (v : α) :
    (m.insert k v).get? k = some v := by
  rw [get?_insert, if_pos Std.ReflCmp.compare_self]

end OrderedMap

namespace OrderedSet

variable {κ : Type} [Ord κ] [Std.TransOrd κ] [Std.LawfulEqOrd κ]

def ofList (l : List κ) : OrderedSet κ := l.foldl (fun s k => s.insert k ()) OrderedMap.empty

def add (s : OrderedSet κ) (k : κ) : OrderedSet κ := OrderedMap.insert s k ()

def union (s t : OrderedSet κ) : OrderedSet κ := t.keys.foldl add s

end OrderedSet

end AnnotationGraph
