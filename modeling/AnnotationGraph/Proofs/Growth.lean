import AnnotationGraph.Proofs.Resolution

/-!
# Registering a class takes nothing back

Classes are registered one after the other, under names that are new, that are taken, or that classes
of the program have.  The first class under a name stays.  What was found under a name, and what a
method was resolved to, is so ever after, although a registration lengthens the search along super
classes.  What was not found may be found then; for a method this takes a class under the very name at
which its chain broke off.

* `Hierarchy.registerAll`             the hierarchy after several registrations;
* `Hierarchy.standIns_registerAll`    the first class under a name stays;
* `Hierarchy.Grows`                   a hierarchy that has all that another has;
* `Grows.nearest`                     the nearest class with a method stays the nearest;
* `Hierarchy.BreaksAt`                a chain of super classes breaks off at a name;
* `Hierarchy.registerAll_conserves`   what registrations change.
-/

namespace AnnotationGraph.Hierarchy

variable {h k : Hierarchy} {m : MethodRef} {name : ClassName} {c : Class} {i : Nat}

/-! ### Registrations -/

def registerAll (h : Hierarchy) (classes : List Class) : Hierarchy :=
  classes.foldl (fun h c => (h.register c).2) h

theorem registerAll_append (h : Hierarchy) (earlier later : List Class) :
    h.registerAll (earlier ++ later) = (h.registerAll earlier).registerAll later :=
  List.foldl_append

theorem registerAll_eq (classes : List Class) : ∀ h : Hierarchy,
    h.registerAll classes = { h with standIns := classes.foldl .insertNew h.standIns } := by
  induction classes with
  | nil => exact fun _ => rfl
  | cons c rest ih =>
    intro h
    show (h.register c).2.registerAll rest = _
    rw [ih, register_eq, List.foldl_cons]

/-- Under each name stays the class that was there, or else the first that was registered. -/
theorem standIns_registerAll (h : Hierarchy) (classes : List Class) (name : ClassName) :
    (h.registerAll classes).standIns.lookup? name =
      (h.standIns.lookup? name).or (classes.find? (·.name = name)) := by
  rw [registerAll_eq, ClassSpace.lookup?_foldl_insertNew]

theorem lookup?_registerAll (h : Hierarchy) (classes : List Class) (name : ClassName) :
    (h.registerAll classes).lookup? name =
      (h.lookup? name).or (classes.find? (·.name = name)) := by
  unfold lookup?
  rw [standIns_registerAll, registerAll_eq]
  cases h.program.lookup? name with
  | some c => rfl
  | none => rfl

/-! ### More classes -/

/-- Whatever one hierarchy finds, the other finds too. -/
def Grows (h k : Hierarchy) : Prop :=
  ∀ name c, h.lookup? name = some c → k.lookup? name = some c

theorem grows_registerAll (h : Hierarchy) (classes : List Class) :
    h.Grows (h.registerAll classes) := by
  intro name c hc
  rw [lookup?_registerAll, hc, Option.some_or]

theorem Grows.ancestor? (g : h.Grows k) :
    ∀ i c, h.ancestor? name i = some c → k.ancestor? name i = some c := by
  intro i
  induction i with
  | zero => exact g name
  | succ i ih =>
    intro c hc
    obtain ⟨d, hd, hsuper⟩ := Option.bind_eq_some_iff.1 hc
    obtain ⟨parent, hparent, hlookup⟩ := Option.bind_eq_some_iff.1 hsuper
    rw [ancestor?_succ (ih d hd), super?, hparent]
    exact g parent c hlookup

theorem Grows.nearest (g : h.Grows k) (hn : h.Nearest m i c) : k.Nearest m i c where
  reached := g.ancestor? i c hn.reached
  has := hn.has
  before := by
    intro j hj d hd
    obtain ⟨e, he⟩ := exists_ancestor?_of_le hn.reached hj.le
    have hsame := g.ancestor? j e he
    rw [hd] at hsame
    rw [Option.some.inj hsame]
    exact hn.before j hj e he

theorem Grows.resolve? (g : h.Grows k) {r : MethodRef} (hr : h.resolve? m = some r) :
    k.resolve? m = some r := by
  obtain ⟨i, c, hn, rfl⟩ := resolve?_eq_some_iff.1 hr
  exact (g.nearest hn).resolve?

/-! ### Chains that break off -/

/-- The chain from a class on comes to a name under which nothing is found. -/
def BreaksAt (h : Hierarchy) (start name : ClassName) : Prop :=
  h.LeadsTo start name ∧ h.lookup? name = none

/-- A method is resolved otherwise only if its chain broke off at a name that has a class now. -/
theorem Grows.exists_breaksAt (g : h.Grows k) (hne : k.resolve? m ≠ h.resolve? m) :
    ∃ name, h.BreaksAt m.owner name ∧ (k.lookup? name).isSome := by
  by_contra hnone
  refine hne (resolve?_congr fun name hled => ?_).symm
  cases hh : h.lookup? name with
  | some c => exact (g name c hh).symm
  | none =>
    cases hk : k.lookup? name with
    | none => rfl
    | some c => exact absurd ⟨name, ⟨hled, hh⟩, Option.isSome_iff_exists.2 ⟨c, hk⟩⟩ hnone

/-- **Registering a class takes nothing back.**  Each registration gives the first class ever registered
under the name, and that class stays.  What is found under a name after further registrations is what
was found before, or else the first class registered since; so what was found is found for good, and a
method that was resolved is resolved to the same.  If a method is resolved otherwise than before, it was
not resolved, and a class was registered under the name at which its chain of super classes broke
off. -/
theorem registerAll_conserves (h : Hierarchy) (earlier later : List Class) :
    let before := h.registerAll earlier
    let after := h.registerAll (earlier ++ later)
    (∀ c, some (before.register c).1 =
      (h.standIns.lookup? c.name).or ((earlier ++ [c]).find? (·.name = c.name))) ∧
    (∀ name c, before.standIns.lookup? name = some c → after.standIns.lookup? name = some c) ∧
    (∀ name, after.lookup? name = (before.lookup? name).or (later.find? (·.name = name))) ∧
    (∀ name c, before.lookup? name = some c → after.lookup? name = some c) ∧
    (∀ m r, before.resolve? m = some r → after.resolve? m = some r) ∧
    ∀ m, after.resolve? m ≠ before.resolve? m → before.resolve? m = none ∧
      ∃ name ∈ later.map Class.name, before.BreaksAt m.owner name := by
  intro before after
  have hafter : after = before.registerAll later := h.registerAll_append earlier later
  have g : before.Grows after := hafter ▸ before.grows_registerAll later
  refine ⟨?_, ?_, ?_, g, fun m r hr => g.resolve? hr, ?_⟩
  · intro c
    have hself : [c].find? (·.name = c.name) = some c := List.find?_cons_of_pos (decide_eq_true rfl)
    rw [register_eq, standIns_registerAll, List.find?_append, hself, ← Option.or_assoc,
      Option.or_some]
  · intro name c hc
    rw [hafter, standIns_registerAll, hc, Option.some_or]
  · intro name
    rw [hafter, lookup?_registerAll]
  · intro m hne
    refine ⟨?_, ?_⟩
    · cases hr : before.resolve? m with
      | none => rfl
      | some r => exact absurd ((g.resolve? hr).trans hr.symm) hne
    · obtain ⟨name, hbreak, hsome⟩ := g.exists_breaksAt hne
      rw [hafter, lookup?_registerAll, hbreak.2, Option.none_or, List.find?_isSome] at hsome
      obtain ⟨c, hc, hname⟩ := hsome
      exact ⟨name, List.mem_map.2 ⟨c, hc, of_decide_eq_true hname⟩, hbreak⟩

def heir : Hierarchy := .ofClasses
  [⟨"p/Heir", some "p/Made", [], [], [], [⟨"stop", "()V", ⟨false, false, false⟩, []⟩], true⟩]

/-- The super class of the heir, whose own super class is the heir. -/
def made : Class :=
  ⟨"p/Made", some "p/Heir", [], [], [], [⟨"run", "()V", ⟨false, false, false⟩, []⟩], false⟩

def rival : Class := ⟨"p/Made", none, [], [], [], [], false⟩

def namesake : Class := ⟨"p/Heir", none, [], [], [], [], false⟩

theorem registerAll_conserves_heir :
    ((heir.registerAll [made]).register rival).1 = made ∧
    (heir.registerAll [made]).standIns.lookup? "p/Made" = some made ∧
    (heir.registerAll [made, rival, namesake]).standIns.lookup? "p/Made" = some made ∧
    (∃ c, heir.lookup? "p/Heir" = some c ∧
      (heir.registerAll [made, rival, namesake]).lookup? "p/Heir" = some c) ∧
    heir.resolve? ⟨"p/Heir", "stop", "()V"⟩ = some ⟨"p/Heir", "stop", "()V"⟩ ∧
    (heir.registerAll [made, rival, namesake]).resolve? ⟨"p/Heir", "stop", "()V"⟩
      = some ⟨"p/Heir", "stop", "()V"⟩ ∧
    heir.resolve? ⟨"p/Heir", "run", "()V"⟩ = none ∧
    (heir.registerAll [made, rival, namesake]).resolve? ⟨"p/Heir", "run", "()V"⟩
      = some ⟨"p/Made", "run", "()V"⟩ ∧
    ∃ name ∈ [made, rival, namesake].map Class.name, heir.BreaksAt "p/Heir" name := by
  obtain ⟨hgiven, hkept, _⟩ := registerAll_conserves heir [made] [rival, namesake]
  obtain ⟨_, _, _, hlookup, hresolve, hbreak⟩ :=
    registerAll_conserves heir [] [made, rival, namesake]
  have hmade : (heir.registerAll [made]).standIns.lookup? "p/Made" = some made := by
    rw [standIns_registerAll]
    rfl
  have hall : (heir.lookup? "p/Heir").isSome ∧
      heir.resolve? ⟨"p/Heir", "stop", "()V"⟩ = some ⟨"p/Heir", "stop", "()V"⟩ ∧
      heir.resolve? ⟨"p/Heir", "run", "()V"⟩ = none ∧
      (heir.registerAll [made, rival, namesake]).resolve? ⟨"p/Heir", "run", "()V"⟩
        = some ⟨"p/Made", "run", "()V"⟩ := by decide +kernel
  obtain ⟨hfound, hstop, hrun, hlater⟩ := hall
  obtain ⟨c, hc⟩ := Option.isSome_iff_exists.1 hfound
  have hne : (heir.registerAll [made, rival, namesake]).resolve? ⟨"p/Heir", "run", "()V"⟩
      ≠ heir.resolve? ⟨"p/Heir", "run", "()V"⟩ := by
    rw [hrun, hlater]
    exact Option.some_ne_none _
  exact ⟨Option.some.inj (hgiven rival), hmade, hkept _ _ hmade, ⟨c, hc, hlookup _ c hc⟩, hstop,
    hresolve _ _ hstop, hrun, hlater, (hbreak _ hne).2⟩

end AnnotationGraph.Hierarchy
