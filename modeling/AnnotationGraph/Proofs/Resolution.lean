import AnnotationGraph.Proofs.Classes
import Mathlib.Combinatorics.Pigeonhole
import Mathlib.Data.Finset.Card

/-!
# Methods are resolved along the whole chain of super classes

The chain from a class on goes from each class to its super class, as long as classes are known.  It
may come back to a class where it has been, and from there on it repeats itself.  A chain of more
classes than there are repeats one of them, so the nearest class with a method is met within as many
steps as there are classes.

* `Hierarchy.ancestor?`        the classes of a chain;
* `Hierarchy.LeadsTo`          the names to which a chain comes;
* `Hierarchy.Nearest`          the first class of a chain that has a method;
* `Nearest.lt_size`            it stands among the first as many as there are classes;
* `Hierarchy.resolve?_nearest` what a method is resolved to.
-/

namespace AnnotationGraph

def Class.HasMethod (c : Class) (m : MethodRef) : Prop :=
  ∃ d ∈ c.methods, d.name = m.name ∧ d.descriptor = m.descriptor

theorem Class.isSome_method?_iff {c : Class} {m : MethodRef} :
    (c.method? m.name m.descriptor).isSome ↔ c.HasMethod m := by
  unfold Class.method? Class.HasMethod
  simp

namespace Hierarchy

variable {h : Hierarchy} {m : MethodRef} {name : ClassName} {c d : Class} {i j n : Nat}

/-! ### The chain of super classes -/

/-- The class that is reached from a class by a number of steps, each to the super class. -/
def ancestor? (h : Hierarchy) (name : ClassName) : Nat → Option Class
  | 0 => h.lookup? name
  | i + 1 => (h.ancestor? name i).bind h.super?

theorem ancestor?_succ (hc : h.ancestor? name i = some c) :
    h.ancestor? name (i + 1) = h.super? c := by
  rw [ancestor?, hc]
  rfl

theorem ancestor?_eq_none (hi : h.ancestor? name i = none) (k : Nat) :
    h.ancestor? name (i + k) = none := by
  induction k with
  | zero => exact hi
  | succ k ih =>
    rw [← Nat.add_assoc, ancestor?, ih]
    rfl

theorem exists_ancestor?_of_le (hc : h.ancestor? name i = some c) (hj : j ≤ i) :
    ∃ d, h.ancestor? name j = some d := by
  cases hd : h.ancestor? name j with
  | some d => exact ⟨d, rfl⟩
  | none =>
    have hi := ancestor?_eq_none hd (i - j)
    rw [Nat.add_sub_of_le hj, hc] at hi
    exact nomatch hi

theorem ancestor?_repeat (hij : h.ancestor? name i = h.ancestor? name j) (k : Nat) :
    h.ancestor? name (i + k) = h.ancestor? name (j + k) := by
  induction k with
  | zero => exact hij
  | succ k ih => rw [← Nat.add_assoc, ← Nat.add_assoc, ancestor?, ancestor?, ih]

theorem lookup?_of_ancestor? (hc : h.ancestor? name i = some c) : h.lookup? c.name = some c := by
  have hfound : ∃ other, h.lookup? other = some c := by
    cases i with
    | zero => exact ⟨name, hc⟩
    | succ i =>
      obtain ⟨d, _, hd⟩ := Option.bind_eq_some_iff.1 hc
      obtain ⟨other, _, hother⟩ := Option.bind_eq_some_iff.1 hd
      exact ⟨other, hother⟩
  obtain ⟨other, hother⟩ := hfound
  rw [name_of_lookup? hother]
  exact hother

/-- The chain from a class on comes to a name: it starts there, or the super class of one of its classes
has the name. -/
def LeadsTo (h : Hierarchy) (start name : ClassName) : Prop :=
  name = start ∨ ∃ i c, h.ancestor? start i = some c ∧ c.superName = some name

theorem ancestor?_congr {k : Hierarchy}
    (hsame : ∀ other, h.LeadsTo name other → h.lookup? other = k.lookup? other) (i : Nat) :
    h.ancestor? name i = k.ancestor? name i := by
  induction i with
  | zero => exact hsame name (.inl rfl)
  | succ i ih =>
    rw [ancestor?, ancestor?, ← ih]
    cases hc : h.ancestor? name i with
    | none => rfl
    | some c =>
      show c.superName.bind h.lookup? = c.superName.bind k.lookup?
      cases hparent : c.superName with
      | none => rfl
      | some parent => exact hsame parent (.inr ⟨i, c, hc, hparent⟩)

/-! ### A long chain repeats itself -/

def names (h : Hierarchy) : List ClassName := h.program.classes.keys ++ h.standIns.classes.keys

theorem length_names (h : Hierarchy) : h.names.length = h.size := by
  simp [names, size, ClassSpace.size, OrderedMap.size, OrderedMap.keys]

theorem mem_names_of_lookup? (hc : h.lookup? name = some c) : name ∈ h.names := by
  rcases lookup?_eq_some_iff.1 hc with hc | ⟨_, hc⟩
  · exact List.mem_append_left _ (ClassSpace.mem_keys_of_lookup? hc)
  · exact List.mem_append_right _ (ClassSpace.mem_keys_of_lookup? hc)

/-- A chain that does not end within as many steps as there are classes meets one of them twice. -/
theorem exists_repeat (hn : h.size ≤ n) (hc : h.ancestor? name n = some c) :
    ∃ i j, i < j ∧ j ≤ n ∧ h.ancestor? name i = h.ancestor? name j := by
  let met : Nat → ClassName := fun i => ((h.ancestor? name i).map Class.name).getD name
  have hmet : ∀ i ≤ n, met i ∈ h.names ∧ h.lookup? (met i) = h.ancestor? name i := by
    intro i hi
    obtain ⟨d, hd⟩ := exists_ancestor?_of_le hc hi
    have hlookup := lookup?_of_ancestor? hd
    have hname : met i = d.name := by simp [met, hd]
    rw [hname, hd]
    exact ⟨mem_names_of_lookup? hlookup, hlookup⟩
  have hcard : h.names.toFinset.card < (Finset.range (n + 1)).card := by
    have hle := h.names.toFinset_card_le
    rw [length_names] at hle
    rw [Finset.card_range]
    omega
  have hmaps : ∀ i ∈ Finset.range (n + 1), met i ∈ h.names.toFinset := by
    intro i hi
    rw [List.mem_toFinset]
    exact (hmet i (Nat.lt_succ_iff.1 (Finset.mem_range.1 hi))).1
  obtain ⟨i, hi, j, hj, hne, hsame⟩ := Finset.exists_ne_map_eq_of_card_lt_of_maps_to hcard hmaps
  have hin : i ≤ n := Nat.lt_succ_iff.1 (Finset.mem_range.1 hi)
  have hjn : j ≤ n := Nat.lt_succ_iff.1 (Finset.mem_range.1 hj)
  have hanc : h.ancestor? name i = h.ancestor? name j := by
    rw [← (hmet i hin).2, ← (hmet j hjn).2, hsame]
  rcases Nat.lt_or_gt_of_ne hne with hlt | hlt
  · exact ⟨i, j, hlt, hjn, hanc⟩
  · exact ⟨j, i, hlt, hin, hanc.symm⟩

/-! ### The nearest class with a method -/

/-- A class is the first of the chain from the owner of a method that has the method, and stands at a
place of the chain. -/
structure Nearest (h : Hierarchy) (m : MethodRef) (i : Nat) (c : Class) : Prop where
  reached : h.ancestor? m.owner i = some c
  has : c.HasMethod m
  before : ∀ j < i, ∀ d, h.ancestor? m.owner j = some d → ¬ d.HasMethod m

def Missing (h : Hierarchy) (m : MethodRef) : Prop :=
  ∀ i c, h.ancestor? m.owner i = some c → ¬ c.HasMethod m

theorem exists_nearest_or_missing (h : Hierarchy) (m : MethodRef) :
    (∃ i c, h.Nearest m i c) ∨ h.Missing m := by
  classical
  by_cases hsome : ∃ i c, h.ancestor? m.owner i = some c ∧ c.HasMethod m
  · obtain ⟨c, hc, hm⟩ := Nat.find_spec hsome
    refine .inl ⟨Nat.find hsome, c, hc, hm, fun j hj d hd hdm => ?_⟩
    exact Nat.find_min hsome hj ⟨d, hd, hdm⟩
  · exact .inr fun i c hc hm => hsome ⟨i, c, hc, hm⟩

theorem Nearest.not_missing (hn : h.Nearest m i c) : ¬ h.Missing m :=
  fun hnot => hnot i c hn.reached hn.has

theorem Nearest.unique (hn : h.Nearest m i c) (hn' : h.Nearest m j d) : c = d := by
  have hij : i = j := by
    rcases Nat.lt_trichotomy i j with hlt | heq | hlt
    · exact absurd hn.has (hn'.before i hlt c hn.reached)
    · exact heq
    · exact absurd hn'.has (hn.before j hlt d hn'.reached)
  have hcd := hn.reached
  rw [hij, hn'.reached] at hcd
  exact (Option.some.inj hcd).symm

theorem Nearest.lt_size (hn : h.Nearest m i c) : i < h.size := by
  by_contra hle
  obtain ⟨a, b, hab, hbi, hsame⟩ := exists_repeat (Nat.le_of_not_lt hle) hn.reached
  -- the part between the two places may be left out, so the class was met before
  have hearly := ancestor?_repeat hsame (i - b)
  rw [Nat.add_sub_of_le hbi, hn.reached] at hearly
  exact hn.before (a + (i - b)) (by omega) c hearly hn.has

/-! ### Searching the chain -/

theorem resolveFrom?_of_nearest (steps : Nat) :
    ∀ k, i ≤ steps → h.ancestor? m.owner (k + i) = some c → c.HasMethod m →
      (∀ j < i, ∀ d, h.ancestor? m.owner (k + j) = some d → ¬ d.HasMethod m) →
      h.resolveFrom? m steps (h.ancestor? m.owner k) = some { m with owner := c.name } := by
  induction steps generalizing i with
  | zero =>
    intro k hi hc hm _
    obtain rfl : i = 0 := Nat.le_zero.1 hi
    rw [show h.ancestor? m.owner k = some c from hc, resolveFrom?, if_pos]
    exact Class.isSome_method?_iff.2 hm
  | succ steps ih =>
    intro k hi hc hm hbefore
    cases i with
    | zero =>
      rw [show h.ancestor? m.owner k = some c from hc, resolveFrom?, if_pos]
      exact Class.isSome_method?_iff.2 hm
    | succ i =>
      obtain ⟨d, hd⟩ := exists_ancestor?_of_le hc (Nat.le_add_right k (i + 1))
      have hnot : ¬ (d.method? m.name m.descriptor).isSome = true := fun hsome =>
        hbefore 0 (Nat.succ_pos i) d hd (Class.isSome_method?_iff.1 hsome)
      rw [hd, resolveFrom?, if_neg hnot]
      show h.resolveFrom? m steps (h.super? d) = _
      rw [← ancestor?_succ hd]
      have hshift : ∀ l, k + (l + 1) = k + 1 + l := fun l => by omega
      refine ih (k + 1) (by omega) (hshift i ▸ hc) hm fun j hj d hd => ?_
      exact hbefore (j + 1) (by omega) d (hshift j ▸ hd)

theorem resolveFrom?_of_missing (hnot : h.Missing m) (steps : Nat) :
    ∀ k, h.resolveFrom? m steps (h.ancestor? m.owner k) = none := by
  induction steps with
  | zero =>
    intro k
    cases hc : h.ancestor? m.owner k with
    | none => rfl
    | some c =>
      rw [resolveFrom?, if_neg]
      exact fun hsome => hnot k c hc (Class.isSome_method?_iff.1 hsome)
  | succ steps ih =>
    intro k
    cases hc : h.ancestor? m.owner k with
    | none => rfl
    | some c =>
      rw [resolveFrom?, if_neg]
      · show h.resolveFrom? m steps (h.super? c) = none
        rw [← ancestor?_succ hc]
        exact ih (k + 1)
      · exact fun hsome => hnot k c hc (Class.isSome_method?_iff.1 hsome)

theorem Nearest.resolveFrom? (hn : h.Nearest m i c) (extra : Nat) :
    h.resolveFrom? m (h.size + extra) (h.lookup? m.owner) = some { m with owner := c.name } :=
  resolveFrom?_of_nearest (h.size + extra) 0 (Nat.le_add_right_of_le hn.lt_size.le)
    (by rw [Nat.zero_add]; exact hn.reached) hn.has
    fun j hj d hd => hn.before j hj d (by rw [Nat.zero_add] at hd; exact hd)

theorem Nearest.resolve? (hn : h.Nearest m i c) :
    h.resolve? m = some { m with owner := c.name } :=
  hn.resolveFrom? 0

theorem Missing.resolve? (hnot : h.Missing m) : h.resolve? m = none :=
  resolveFrom?_of_missing hnot h.size 0

theorem resolve?_eq_some_iff {r : MethodRef} :
    h.resolve? m = some r ↔ ∃ i c, h.Nearest m i c ∧ { m with owner := c.name } = r := by
  constructor
  · intro hr
    rcases h.exists_nearest_or_missing m with ⟨i, c, hn⟩ | hnot
    · exact ⟨i, c, hn, Option.some.inj (hn.resolve?.symm.trans hr)⟩
    · exact nomatch hnot.resolve?.symm.trans hr
  · rintro ⟨i, c, hn, rfl⟩
    exact hn.resolve?

/-- What a method is resolved to depends on the chain from its owner alone, and not on how many classes
there are. -/
theorem resolve?_congr {k : Hierarchy}
    (hsame : ∀ other, h.LeadsTo m.owner other → h.lookup? other = k.lookup? other) :
    h.resolve? m = k.resolve? m := by
  have hchain := ancestor?_congr hsame
  rcases h.exists_nearest_or_missing m with ⟨i, c, hc⟩ | hnone
  · have hc' : k.Nearest m i c :=
      ⟨hchain i ▸ hc.reached, hc.has, fun j hj d hd => hc.before j hj d (hchain j ▸ hd)⟩
    rw [hc.resolve?, hc'.resolve?]
  · have hnone' : k.Missing m := fun i c hc => hnone i c (hchain i ▸ hc)
    rw [hnone.resolve?, hnone'.resolve?]

theorem Nearest.self (hn : h.Nearest m i c) : h.Nearest { m with owner := c.name } 0 c where
  reached := lookup?_of_ancestor? hn.reached
  has := hn.has
  before _ hj := absurd hj (Nat.not_lt_zero _)

theorem Nearest.method? (hn : h.Nearest m i c) :
    ∃ d, h.method? { m with owner := c.name } = some d ∧
      d.name = m.name ∧ d.descriptor = m.descriptor := by
  obtain ⟨d, hd⟩ := Option.isSome_iff_exists.1 (Class.isSome_method?_iff.2 hn.has)
  refine ⟨d, ?_, ?_⟩
  · show (h.lookup? c.name).bind (fun c => c.method? m.name m.descriptor) = some d
    rw [lookup?_of_ancestor? hn.reached]
    exact hd
  · have hp := List.find?_some hd
    simpa using hp

/-- **A method is resolved to the nearest class that has it.**  It is the first class of the chain
from the owner on, whatever its length, that declares a method of the name and the descriptor, and
there is none exactly if no class of the chain does.  A search of more steps finds nothing else.  What
a method is resolved to is declared by its own class, and is resolved to itself. -/
theorem resolve?_nearest (h : Hierarchy) (m : MethodRef) :
    (∀ r, h.resolve? m = some r ↔ ∃ i c, h.Nearest m i c ∧ r = ⟨c.name, m.name, m.descriptor⟩) ∧
    (h.resolve? m = none ↔ ∀ i c, h.ancestor? m.owner i = some c → ¬ c.HasMethod m) ∧
    (∀ extra, h.resolveFrom? m (h.size + extra) (h.lookup? m.owner) = h.resolve? m) ∧
    ∀ r ∈ h.resolve? m, h.resolve? r = some r ∧
      ∃ d, h.method? r = some d ∧ d.name = m.name ∧ d.descriptor = m.descriptor := by
  rcases h.exists_nearest_or_missing m with ⟨i, c, hn⟩ | hnot
  · have hr := hn.resolve?
    rw [hr]
    refine ⟨fun r => ⟨?_, ?_⟩, ⟨fun hnone => (nomatch hnone), ?_⟩, hn.resolveFrom?, ?_⟩
    · intro hsome
      exact ⟨i, c, hn, (Option.some.inj hsome).symm⟩
    · rintro ⟨j, d, hd, rfl⟩
      rw [hn.unique hd]
    · exact fun hnone => absurd hnone hn.not_missing
    · intro r hsome
      obtain rfl : { m with owner := c.name } = r := Option.some.inj hsome
      exact ⟨hn.self.resolve?, hn.method?⟩
  · have hr := hnot.resolve?
    rw [hr]
    refine ⟨fun r => ⟨fun hsome => (nomatch hsome), ?_⟩, ⟨fun _ => hnot, fun _ => rfl⟩, ?_, ?_⟩
    · rintro ⟨j, d, hd, _⟩
      exact absurd hnot hd.not_missing
    · exact fun extra => resolveFrom?_of_missing hnot (h.size + extra) 0
    · exact fun r hsome => nomatch hsome

/-- Classes whose chains come back: the first leads into a circle of the two others, of which the last
declares a method. -/
def circle : Hierarchy := .ofClasses
  [ ⟨"p/First", some "p/Second", [], [], [], [], true⟩,
    ⟨"p/Second", some "p/Third", [], [], [], [], true⟩,
    ⟨"p/Third", some "p/Second", [], [], [],
      [⟨"run", "()V", ⟨false, false, false⟩, []⟩], true⟩ ]

theorem resolve?_nearest_circle :
    ⟨"p/Third", "run", "()V"⟩ ∈ circle.resolve? ⟨"p/First", "run", "()V"⟩ ∧
    circle.resolve? ⟨"p/Third", "run", "()V"⟩ = some ⟨"p/Third", "run", "()V"⟩ ∧
    ∀ i c, circle.ancestor? "p/First" i = some c → ¬ c.HasMethod ⟨"p/First", "stop", "()V"⟩ := by
  have hrun : circle.resolve? ⟨"p/First", "run", "()V"⟩ = some ⟨"p/Third", "run", "()V"⟩ := by
    decide +kernel
  have hstop : circle.resolve? ⟨"p/First", "stop", "()V"⟩ = none := by decide +kernel
  refine ⟨hrun, ?_, ?_⟩
  · exact ((resolve?_nearest circle ⟨"p/First", "run", "()V"⟩).2.2.2 _ hrun).1
  · exact (resolve?_nearest circle ⟨"p/First", "stop", "()V"⟩).2.1.1 hstop

end Hierarchy

end AnnotationGraph
