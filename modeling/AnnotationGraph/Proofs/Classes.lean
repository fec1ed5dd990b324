import AnnotationGraph.Hierarchy
import AnnotationGraph.Proofs.Maps

/-!
# Looking classes up

Every class is found under its own name, and a class that is registered is found unless the program
has one of its name.

* `Hierarchy.lookup?_eq_some_iff`   which class is found under a name;
* `Hierarchy.lookup?_registered_iff` when a registered class is found;
* `Hierarchy.name_of_lookup?`       a class is found under its own name;
* `Hierarchy.register_eq`           what registering a class does.
-/

namespace AnnotationGraph

namespace ClassSpace

variable {s : ClassSpace} {name : ClassName} {c : Class}

theorem lookup?_insert (s : ClassSpace) (c : Class) (name : ClassName) :
    (s.insert c).lookup? name = if name = c.name then some c else s.lookup? name := by
  show (s.classes.insert c.name c).get? name = _
  rw [OrderedMap.get?_insert]
  by_cases h : name = c.name
  · have heq : compare name c.name = .eq := h ▸ Std.ReflCmp.compare_self
    rw [if_pos h, if_pos heq]
  · have hne : compare name c.name ≠ .eq := fun heq => h (Std.LawfulEqCmp.eq_of_compare heq)
    rw [if_neg h, if_neg hne]
    rfl

theorem lookup?_insertNew (s : ClassSpace) (c : Class) (name : ClassName) :
    (s.insertNew c).lookup? name
      = (s.lookup? name).or (if c.name = name then some c else none) := by
  unfold insertNew
  by_cases hname : c.name = name
  · rw [if_pos hname, ← hname]
    cases hs : s.lookup? c.name with
    | none =>
      show (s.insert c).lookup? c.name = some c
      rw [lookup?_insert, if_pos rfl]
    | some d => exact hs
  · rw [if_neg hname, Option.or_none]
    split
    · rfl
    · rw [lookup?_insert, if_neg (Ne.symm hname)]

theorem lookup?_foldl_insertNew (classes : List Class) : ∀ (s : ClassSpace) (name : ClassName),
    (classes.foldl .insertNew s).lookup? name
      = (s.lookup? name).or (classes.find? fun c => c.name = name) := by
  induction classes with
  | nil =>
    intro s name
    exact (Option.or_none ..).symm
  | cons c rest ih =>
    intro s name
    rw [List.foldl_cons, ih, lookup?_insertNew, Option.or_assoc, List.find?_cons]
    by_cases hname : c.name = name <;> simp [hname]

@[simp] theorem lookup?_empty (name : ClassName) : empty.lookup? name = none := rfl
@[simp] theorem size_empty : empty.size = 0 := rfl

theorem name_of_lookup? (h : s.lookup? name = some c) : c.name = name :=
  s.named _ (OrderedMap.mem_of_find h)

theorem mem_keys_of_lookup? (h : s.lookup? name = some c) : name ∈ s.classes.keys :=
  List.mem_map_of_mem (OrderedMap.mem_of_find h)

theorem mem_toList_iff : c ∈ s.toList ↔ s.lookup? c.name = some c := by
  show c ∈ s.classes.entries.map Prod.snd ↔ s.classes.get? c.name = some c
  rw [OrderedMap.get?_eq_some_iff, List.mem_map]
  constructor
  · rintro ⟨⟨name, d⟩, hd, rfl⟩
    have hname : d.name = name := s.named _ hd
    rw [hname]
    exact hd
  · exact fun hc => ⟨(c.name, c), hc, rfl⟩

end ClassSpace

namespace Hierarchy

variable {h : Hierarchy} {name : ClassName} {c : Class}

theorem lookup?_eq_some_iff : h.lookup? name = some c ↔
    h.program.lookup? name = some c ∨
      h.program.lookup? name = none ∧ h.standIns.lookup? name = some c := by
  unfold lookup?
  cases h.program.lookup? name <;> simp

theorem lookup?_of_fresh (fresh : h.standIns = .empty) : h.lookup? name = h.program.lookup? name := by
  unfold lookup?
  rw [fresh, ClassSpace.lookup?_empty]
  cases h.program.lookup? name <;> rfl

theorem lookup?_registered_iff (hc : h.standIns.lookup? name = some c) :
    h.lookup? name = some c ↔ ∀ d, h.program.lookup? name = some d → d = c := by
  rw [lookup?_eq_some_iff]
  cases hp : h.program.lookup? name with
  | none => simp [hc]
  | some d => simp

theorem name_of_lookup? (hc : h.lookup? name = some c) : c.name = name := by
  rcases lookup?_eq_some_iff.1 hc with hc | ⟨_, hc⟩
  · exact ClassSpace.name_of_lookup? hc
  · exact ClassSpace.name_of_lookup? hc

theorem register_eq (h : Hierarchy) (c : Class) : h.register c =
    ((h.standIns.lookup? c.name).getD c, { h with standIns := h.standIns.insertNew c }) := by
  unfold register ClassSpace.insertNew
  cases h.standIns.lookup? c.name with
  | some d => rfl
  | none => rfl

theorem register_cases (h : Hierarchy) (c : Class) :
    (∃ d, h.standIns.lookup? c.name = some d ∧ h.register c = (d, h)) ∨
      h.standIns.lookup? c.name = none ∧
        h.register c = (c, { h with standIns := h.standIns.insert c }) := by
  unfold register
  cases hd : h.standIns.lookup? c.name with
  | some d => exact .inl ⟨d, rfl, rfl⟩
  | none => exact .inr ⟨rfl, rfl⟩

end Hierarchy

end AnnotationGraph
