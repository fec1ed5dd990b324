import AnnotationGraph.Body.DefUse
import AnnotationGraph.Proofs.Maps
import Mathlib.Data.List.Induction

/-!
# What definitions and uses say

The pass over a list of instructions knows of the instructions that it has passed, and each further
one adds its position to what is known of the values that it defines and reads.

* `DefinedAt`, `UsedAt`         an instruction of a list defines or reads a value;
* `DefUse.Covers`               what is known is that of a list of instructions;
* `Covers.add`                  one more instruction;
* `covers_ofInstructions`       the whole list;
* `ofInstructions_locates`      where a value is defined and used.
-/

namespace AnnotationGraph

/-- The instruction at a position defines a value. -/
def DefinedAt (l : List Instruction) (p value : Nat) : Prop :=
  ∃ i, l[p]? = some i ∧ i.defined? = some value

/-- The instruction at a position reads a value. -/
def UsedAt (l : List Instruction) (p value : Nat) : Prop := ∃ i, l[p]? = some i ∧ value ∈ i.used

section
variable {l : List Instruction} {i : Instruction} {p value : Nat}

theorem DefinedAt.lt (h : DefinedAt l p value) : p < l.length :=
  have ⟨_, hi, _⟩ := h
  (List.getElem?_eq_some_iff.1 hi).1

theorem UsedAt.lt (h : UsedAt l p value) : p < l.length :=
  have ⟨_, hi, _⟩ := h
  (List.getElem?_eq_some_iff.1 hi).1

theorem getElem?_concat_iff {j : Instruction} :
    (l ++ [i])[p]? = some j ↔ l[p]? = some j ∨ p = l.length ∧ j = i := by
  rcases Nat.lt_trichotomy p l.length with hp | hp | hp
  · rw [List.getElem?_append_left hp]
    exact ⟨.inl, fun h => h.resolve_right fun ⟨h, _⟩ => Nat.ne_of_lt hp h⟩
  · rw [hp, List.getElem?_concat_length, List.getElem?_eq_none (Nat.le_refl _)]
    simp [eq_comm]
  · rw [List.getElem?_eq_none (by rwa [List.length_append]), List.getElem?_eq_none (Nat.le_of_lt hp)]
    simp [Nat.ne_of_gt hp]

theorem definedAt_concat : DefinedAt (l ++ [i]) p value ↔
    DefinedAt l p value ∨ p = l.length ∧ i.defined? = some value := by
  unfold DefinedAt
  simp only [getElem?_concat_iff, or_and_right, exists_or]
  apply or_congr_right
  constructor
  · rintro ⟨_, ⟨hp, rfl⟩, hd⟩
    exact ⟨hp, hd⟩
  · rintro ⟨hp, hd⟩
    exact ⟨i, ⟨hp, rfl⟩, hd⟩

theorem usedAt_concat : UsedAt (l ++ [i]) p value ↔
    UsedAt l p value ∨ p = l.length ∧ value ∈ i.used := by
  unfold UsedAt
  simp only [getElem?_concat_iff, or_and_right, exists_or]
  apply or_congr_right
  constructor
  · rintro ⟨_, ⟨hp, rfl⟩, hu⟩
    exact ⟨hp, hu⟩
  · rintro ⟨hp, hu⟩
    exact ⟨i, ⟨hp, rfl⟩, hu⟩

end

namespace DefUse

variable {d : DefUse} {l : List Instruction} {i : Instruction} {p value : Nat}

/-! ### One instruction -/

theorem usesOf_addUse (d : DefUse) (position read value : Nat) :
    (d.addUse position read).usesOf value = if value = read ∧ position ∉ d.usesOf value then
      d.usesOf value ++ [position] else d.usesOf value := by
  show ((d.uses.insert read _).get? value).getD [] = _
  rw [OrderedMap.get?_insert]
  by_cases hv : value = read
  · subst hv
    rw [if_pos Std.ReflCmp.compare_self, Option.getD_some]
    by_cases hp : position ∈ d.usesOf value <;> simp [hp]
  · rw [if_neg fun heq => hv (Std.LawfulEqCmp.eq_of_compare heq), if_neg fun h => hv h.1]
    rfl

theorem definitions_foldl_addUse (position : Nat) (reads : List Nat) (d : DefUse) :
    (reads.foldl (addUse position) d).definitions = d.definitions := by
  induction reads generalizing d with
  | nil => rfl
  | cons read rest ih => exact ih (d.addUse position read)

theorem usesOf_foldl_addUse (position : Nat) (reads : List Nat) (d : DefUse) :
    (reads.foldl (addUse position) d).usesOf value
      = if value ∈ reads ∧ position ∉ d.usesOf value then d.usesOf value ++ [position]
        else d.usesOf value := by
  induction reads generalizing d with
  | nil => simp
  | cons read rest ih =>
    rw [List.foldl_cons, ih, usesOf_addUse]
    by_cases hp : position ∈ d.usesOf value
    · simp [hp]
    · by_cases hv : value = read
      · subst hv
        simp [hp]
      · simp [hv, hp]

theorem definition?_add (position : Nat) (d : DefUse) (i : Instruction) :
    (d.add position i).definition? value
      = if i.defined? = some value then some position else d.definition? value := by
  unfold add definition?
  rw [definitions_foldl_addUse]
  cases hi : i.defined? with
  | none => simp
  | some defined =>
    show (d.definitions.insert defined position).get? value = _
    rw [OrderedMap.get?_insert]
    by_cases hv : value = defined
    · rw [hv, if_pos Std.ReflCmp.compare_self, if_pos rfl]
    · rw [if_neg fun heq => hv (Std.LawfulEqCmp.eq_of_compare heq),
        if_neg fun heq => hv (Option.some.inj heq).symm]

theorem usesOf_add (position : Nat) (d : DefUse) (i : Instruction) :
    (d.add position i).usesOf value
      = if value ∈ i.used ∧ position ∉ d.usesOf value then d.usesOf value ++ [position]
        else d.usesOf value := by
  unfold add
  rw [usesOf_foldl_addUse]
  cases i.defined? <;> rfl

/-! ### The whole list -/

/-- What is known is that of a list of instructions: for each value the last position that defines
it, and all positions that read it in ascending order. -/
structure Covers (d : DefUse) (l : List Instruction) : Prop where
  definition : ∀ value p, d.definition? value = some p ↔
    DefinedAt l p value ∧ ∀ q, DefinedAt l q value → q ≤ p
  ascending : ∀ value, (d.usesOf value).Pairwise (· < ·)
  uses : ∀ value p, p ∈ d.usesOf value ↔ UsedAt l p value

theorem covers_empty : Covers ⟨.empty, .empty⟩ [] where
  definition value p := by simp [definition?, DefinedAt]
  ascending value := .nil
  uses value p := by simp [usesOf, UsedAt]

theorem Covers.add (hd : d.Covers l) (i : Instruction) : (d.add l.length i).Covers (l ++ [i]) where
  definition value p := by
    rw [definition?_add]
    simp only [definedAt_concat]
    by_cases hi : i.defined? = some value
    · -- the new position is the last one
      rw [if_pos hi, Option.some.injEq]
      constructor
      · rintro rfl
        exact ⟨.inr ⟨rfl, hi⟩, fun q hq => hq.elim (fun h => Nat.le_of_lt h.lt) fun h => h.1.le⟩
      · rintro ⟨hp, hlast⟩
        have hle := hlast l.length (.inr ⟨rfl, hi⟩)
        exact hp.elim (fun h => absurd h.lt (Nat.not_lt.2 hle)) fun h => h.1.symm
    · rw [if_neg hi, hd.definition]
      simp [hi]
  ascending value := by
    rw [usesOf_add]
    split
    next hnew =>
      rw [List.pairwise_append]
      refine ⟨hd.ascending value, List.pairwise_singleton _ _, fun p hp q hq => ?_⟩
      rw [List.mem_singleton.1 hq]
      exact ((hd.uses value p).1 hp).lt
    next => exact hd.ascending value
  uses value p := by
    have hnew : l.length ∉ d.usesOf value := fun h => Nat.lt_irrefl _ ((hd.uses value _).1 h).lt
    rw [usesOf_add, usedAt_concat, ← hd.uses]
    by_cases hi : value ∈ i.used
    · rw [if_pos ⟨hi, hnew⟩, List.mem_append, List.mem_singleton, and_iff_left hi]
    · rw [if_neg fun h => hi h.1]
      simp [hi]

theorem addFrom_concat (l : List Instruction) (i : Instruction) (position : Nat) (d : DefUse) :
    addFrom position d (l ++ [i]) = (addFrom position d l).add (position + l.length) i := by
  induction l generalizing position d with
  | nil => rfl
  | cons j rest ih =>
    show addFrom (position + 1) (d.add position j) (rest ++ [i]) = _
    rw [ih, List.length_cons, Nat.add_assoc, Nat.add_comm 1]
    rfl

theorem ofInstructions_concat (l : List Instruction) (i : Instruction) :
    ofInstructions (l ++ [i]) = (ofInstructions l).add l.length i := by
  rw [ofInstructions, addFrom_concat, Nat.zero_add]
  rfl

theorem covers_ofInstructions (l : List Instruction) : (ofInstructions l).Covers l := by
  induction l using List.reverseRecOn with
  | nil => exact covers_empty
  | append_singleton l i ih =>
    rw [ofInstructions_concat]
    exact ih.add i

theorem definition?_eq_none_iff :
    (ofInstructions l).definition? value = none ↔ ∀ i ∈ l, i.defined? ≠ some value := by
  induction l using List.reverseRecOn with
  | nil => simp [ofInstructions, addFrom, definition?]
  | append_singleton l i ih =>
    rw [ofInstructions_concat, definition?_add, List.forall_mem_append, List.forall_mem_singleton]
    by_cases hi : i.defined? = some value
    · simp [hi]
    · rw [if_neg hi, ih, and_iff_left hi]

theorem useCount_ofInstructions (l : List Instruction) (value : Nat) :
    (ofInstructions l).useCount value = l.countP fun i => value ∈ i.used := by
  induction l using List.reverseRecOn with
  | nil => rfl
  | append_singleton l i ih =>
    have hnew : l.length ∉ (ofInstructions l).usesOf value := fun h =>
      Nat.lt_irrefl _ (((covers_ofInstructions l).uses value _).1 h).lt
    rw [List.countP_append, ← ih, useCount, ofInstructions_concat, usesOf_add]
    by_cases hi : value ∈ i.used
    · rw [if_pos ⟨hi, hnew⟩, List.length_append, List.countP_singleton]
      simp [hi, useCount]
    · rw [if_neg fun h => hi h.1, List.countP_singleton]
      simp [hi, useCount]

/-! ### Indices -/

theorem add_congr {j : Instruction} (h : i.action = j.action) (position : Nat) (d : DefUse) :
    d.add position i = d.add position j := by
  unfold add Instruction.defined? Instruction.used
  rw [h]

theorem addFrom_congr {k : List Instruction}
    (h : k.map Instruction.action = l.map Instruction.action) (position : Nat) (d : DefUse) :
    addFrom position d k = addFrom position d l := by
  induction k generalizing l position d with
  | nil =>
    obtain rfl : l = [] := List.map_eq_nil_iff.1 h.symm
    rfl
  | cons i rest ih =>
    cases l with
    | nil => exact nomatch h
    | cons j others =>
      obtain ⟨hi, hrest⟩ := List.cons.inj h
      show addFrom (position + 1) (d.add position i) rest = addFrom (position + 1) (d.add position j) others
      rw [add_congr hi, ih hrest]

/-! ### What is said of a value -/

/-- **A value is defined at the last position that defines it, and used at the positions that read
it.**  It has no definition if no instruction defines it, its uses stand in ascending order, one for
each instruction that reads the value, and the indices of the instructions do not matter. -/
theorem ofInstructions_locates (l : List Instruction) (value : Nat) :
    (∀ p, (ofInstructions l).definition? value = some p ↔
      DefinedAt l p value ∧ ∀ q, DefinedAt l q value → q ≤ p) ∧
    ((ofInstructions l).definition? value = none ↔ ∀ i ∈ l, i.defined? ≠ some value) ∧
    ((ofInstructions l).usesOf value).Pairwise (· < ·) ∧
    (∀ p, p ∈ (ofInstructions l).usesOf value ↔ UsedAt l p value) ∧
    (ofInstructions l).useCount value = ((ofInstructions l).usesOf value).length ∧
    (ofInstructions l).useCount value = l.countP (fun i => value ∈ i.used) ∧
    ∀ renumber : Nat → Instruction → Nat,
      ofInstructions (l.mapIdx fun p i => { i with index := renumber p i }) = ofInstructions l := by
  have hcovers := covers_ofInstructions l
  refine ⟨hcovers.definition value, definition?_eq_none_iff, hcovers.ascending value,
    hcovers.uses value, rfl, useCount_ofInstructions l value, fun renumber => ?_⟩
  apply addFrom_congr
  apply List.ext_getElem?
  intro p
  rw [List.getElem?_map, List.getElem?_mapIdx, List.getElem?_map, Option.map_map]
  rfl

/-- A value that is defined anew, and a write of an object into a field of its own. -/
example : (ofInstructions [⟨7, .new 3 ⟨0, "p/Box"⟩⟩, ⟨7, .put 3 3 ⟨"p/Box", "self", "p/Box"⟩⟩,
    ⟨7, .new 3 ⟨1, "p/Box"⟩⟩, ⟨7, .leave (some 3)⟩]).usesOf 3 = [1, 3] := by decide

end DefUse

end AnnotationGraph
