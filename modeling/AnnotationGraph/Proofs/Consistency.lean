import AnnotationGraph.Proofs.Classes
import AnnotationGraph.Proofs.Instructions
import AnnotationGraph.Proofs.Synthesis

/-!
# Stand-ins stay those of the program

If a synthesizer alone makes classes up, every made-up class is the stand-in for an annotation that
a class of the program declares, and so is every stand-in that is noted.  Each request keeps this,
and under it no request fails once the lookup is of one class on one class.

* `Hierarchy.Declares`             an annotation is the first of its type on a class of the program;
* `Synthesizer.Consistent`         the invariant;
* `Consistent.standIn`             asking for a stand-in gives the one of the annotation;
* `Consistent.answer`, `.run`      requests keep the invariant;
* `Consistent.bodyOf_ne_error`     there is a body for every annotation that is found;
* `Consistent.fills_of_bodyOf`     it fills the stand-in for the annotation;
* `Consistent.new_cases`           what a new body is.
-/

namespace AnnotationGraph

/-! ### What is found -/

theorem Class.type_of_find? {c : Class} {type : ClassName} {use : AnnotationUse}
    (h : c.annotations.find? (·.type = type) = some use) : use.type = type := by
  have hp := List.find?_some h
  exact of_decide_eq_true hp

theorem Hierarchy.finding_eq_found {h : Hierarchy} {subject sought : ClassName}
    {use : AnnotationUse} :
    h.finding subject sought = .found use ↔
      ∃ c, h.lookup? subject = some c ∧ h.lookup? sought ≠ none ∧
        c.annotations.find? (·.type = sought) = some use := by
  unfold Hierarchy.finding Class.use?
  cases hs : h.lookup? subject with
  | none => simp
  | some c =>
    cases ha : h.lookup? sought with
    | none => simp
    | some d =>
      simp only [Option.isNone_some, Bool.false_eq_true, if_false]
      constructor
      · intro hf
        cases hu : c.annotations.find? (·.type = sought) with
        | none =>
          rw [hu] at hf
          exact nomatch hf
        | some use' =>
          rw [hu] at hf
          exact ⟨c, rfl, by simp, by rw [hu, Finding.found.inj hf]⟩
      · rintro ⟨c', hc, _, hu⟩
        rw [Option.some.inj hc, hu]

/-! ### The invariant -/

/-- A class of the program carries an annotation, and it is the first of its type there. -/
def Hierarchy.Declares (h : Hierarchy) (subject : ClassName) (use : AnnotationUse) : Prop :=
  ∃ c, h.program.lookup? subject = some c ∧ c.annotations.find? (·.type = use.type) = some use

theorem Hierarchy.Declares.unique {h : Hierarchy} {subject : ClassName} {use use' : AnnotationUse}
    (hu : h.Declares subject use) (hu' : h.Declares subject use') (ht : use.type = use'.type) :
    use = use' := by
  obtain ⟨c, hc, hf⟩ := hu
  obtain ⟨c', hc', hf'⟩ := hu'
  have he : c = c' := Option.some.inj (hc.symm.trans hc')
  rw [← he, ← ht, hf] at hf'
  exact Option.some.inj hf'

namespace Synthesizer

/-- The made-up classes of a synthesizer, and the stand-ins that it has noted, stand for annotations
that classes of a program declare. -/
structure Consistent (h : Hierarchy) (s : Synthesizer) : Prop where
  program : s.hierarchy.program = h.program
  registered : ∀ name c, s.hierarchy.standIns.lookup? name = some c →
    ∃ subject use, h.Declares subject use ∧ c = StandIn.ofUse subject use
  noted : ∀ subject type c, s.standIns.lookup (subject, type) = some c →
    ∃ use, h.Declares subject use ∧ use.type = type ∧ c = StandIn.ofUse subject use

variable {h : Hierarchy} {s s' : Synthesizer} {node : Node} {r : Except Fault (Nat × Body)}

theorem consistent_ofHierarchy (fresh : h.standIns = .empty) : Consistent h (.ofHierarchy h) where
  program := rfl
  registered := by
    intro name c hc
    simp [ofHierarchy, fresh] at hc
  noted := fun _ _ _ hc => nomatch hc

namespace Consistent

theorem declares_of_found (hs : Consistent h s) {subject sought : ClassName} {use : AnnotationUse}
    (hf : s.hierarchy.finding subject sought = .found use) :
    h.Declares subject use ∧ use.type = sought := by
  obtain ⟨c, hc, _, hu⟩ := Hierarchy.finding_eq_found.1 hf
  have ht := Class.type_of_find? hu
  refine ⟨⟨c, ?_, by rw [ht, hu]⟩, ht⟩
  rw [Hierarchy.lookup?, hs.program] at hc
  cases hp : h.program.lookup? subject with
  | some d =>
    rw [hp] at hc
    exact hc
  | none =>
    rw [hp] at hc
    obtain ⟨subject', use', _, rfl⟩ := hs.registered subject c hc
    exact nomatch hu

theorem eq_ofUse_of_registered (hs : Consistent h s) {subject : ClassName} {use : AnnotationUse}
    (hd : h.Declares subject use) {c : Class}
    (hc : s.hierarchy.standIns.lookup? (StandIn.ofUse subject use).name = some c) :
    c = StandIn.ofUse subject use := by
  obtain ⟨subject', use', hd', rfl⟩ := hs.registered _ c hc
  have hname : StandIn.name subject' use'.type = StandIn.name subject use.type :=
    ClassSpace.name_of_lookup? hc
  obtain ⟨hsub, htype⟩ := StandIn.name_inj hname
  rw [hsub] at hd' ⊢
  rw [hd'.unique hd htype]

theorem eq_ofUse_of_noted (hs : Consistent h s) {subject : ClassName} {use : AnnotationUse}
    (hd : h.Declares subject use) {c : Class}
    (hc : s.standIns.lookup (subject, use.type) = some c) : c = StandIn.ofUse subject use := by
  obtain ⟨use', hd', ht, rfl⟩ := hs.noted _ _ c hc
  rw [hd'.unique hd ht]

theorem note (hs : Consistent h s) {subject : ClassName} {use : AnnotationUse}
    (hd : h.Declares subject use) {standIns : ClassSpace}
    (hi : standIns = s.hierarchy.standIns ∨
      standIns = s.hierarchy.standIns.insert (StandIn.ofUse subject use)) :
    Consistent h { s with
      hierarchy := { s.hierarchy with standIns }
      standIns := s.standIns ++ [((subject, use.type), StandIn.ofUse subject use)] } where
  program := hs.program
  registered := by
    intro name c hc
    change standIns.lookup? name = some c at hc
    rcases hi with rfl | rfl
    · exact hs.registered name c hc
    · rw [ClassSpace.lookup?_insert] at hc
      by_cases hn : name = (StandIn.ofUse subject use).name
      · rw [if_pos hn] at hc
        exact ⟨subject, use, hd, (Option.some.inj hc).symm⟩
      · rw [if_neg hn] at hc
        exact hs.registered name c hc
  noted := by
    intro subject' type c hc
    rw [List.lookup_append, Option.or_eq_some_iff] at hc
    rcases hc with hc | ⟨_, hc⟩
    · exact hs.noted _ _ c hc
    · obtain ⟨_, _, hsplit, _⟩ := List.lookup_eq_some_iff.1 hc
      have hmem : ((subject', type), c) ∈ [((subject, use.type), StandIn.ofUse subject use)] :=
        hsplit ▸ by simp
      obtain ⟨hkey, hc'⟩ := Prod.mk.inj (List.mem_singleton.1 hmem)
      obtain ⟨hsub, htype⟩ := Prod.mk.inj hkey
      rw [hsub, htype]
      exact ⟨use, hd, rfl, hc'⟩

theorem standIn (hs : Consistent h s) {subject : ClassName} {use : AnnotationUse}
    (hd : h.Declares subject use) :
    (s.standIn subject use).1 = StandIn.ofUse subject use ∧
      Consistent h (s.standIn subject use).2 := by
  unfold Synthesizer.standIn
  cases hn : s.standIns.lookup (subject, use.type) with
  | some c => exact ⟨hs.eq_ofUse_of_noted hd hn, hs⟩
  | none =>
    rcases s.hierarchy.register_cases (StandIn.ofUse subject use) with ⟨d, hd', hr⟩ | ⟨_, hr⟩
    · rw [hr, hs.eq_ofUse_of_registered hd hd']
      exact ⟨rfl, hs.note hd (.inl rfl)⟩
    · rw [hr]
      exact ⟨rfl, hs.note hd (.inr rfl)⟩

theorem bodyOf_ne_error (hs : Consistent h s) {subject : ClassName} {use : AnnotationUse}
    (hd : h.Declares subject use) (hm : node.method = Operation.onClass.method) {e : Fault} :
    (s.bodyOf node subject use).1 ≠ .error e := by
  obtain ⟨object, hfree⟩ := (s.standIn subject use).2.hierarchy.firstFree_onClass
  obtain ⟨instructions, hins, _⟩ := fills_ofUse subject use node.method node.context object
  show ((s.standIn subject use).2.hierarchy.firstFree node.method >>= fun object =>
    instructionsFor (s.standIn subject use).1 object use.arguments.entries >>= fun instructions =>
      _) ≠ _
  rw [hm, hfree, (hs.standIn hd).1]
  show (instructionsFor (StandIn.ofUse subject use) object use.arguments.entries >>= _) ≠ _
  rw [hins]
  exact fun hok => nomatch hok

theorem fills_of_bodyOf (hs : Consistent h s) {subject : ClassName} {use : AnnotationUse}
    (hd : h.Declares subject use) {body : Body} (hb : (s.bodyOf node subject use).1 = .ok body) :
    ∃ object, (s.standIn subject use).2.hierarchy.firstFree node.method = .ok object ∧
      body.method = node.method ∧ body.context = node.context ∧
      body.Fills (StandIn.name subject use.type) object use.arguments.entries := by
  obtain ⟨object, instructions, hfree, hins, rfl⟩ := bodyOf_eq_ok hb
  obtain ⟨instructions', hins', hfills⟩ := fills_ofUse subject use node.method node.context object
  rw [(hs.standIn hd).1] at hins
  rw [Except.ok.inj (hins'.symm.trans hins)] at hfills
  exact ⟨object, hfree, rfl, rfl, hfills⟩

/-! ### What requests keep -/

theorem answer (hs : Consistent h s) (ha : Answer s node r s') : Consistent h s' := by
  cases ha with
  | foreign hn => exact hs
  | kept hn hk => exact hs
  | unpinned hn hk hl => exact hs
  | idle hn hk hf => exact ⟨hs.program, hs.registered, hs.noted⟩
  | failed hn hk hf hb => exact (hs.standIn (hs.declares_of_found hf).1).2
  | filled hn hk hf hb =>
    have hnext := (hs.standIn (hs.declares_of_found hf).1).2
    exact ⟨hnext.program, hnext.registered, hnext.noted⟩

theorem run (hs : Consistent h s) (requests : List Node) : Consistent h (s.run requests) := by
  induction requests generalizing s with
  | nil => exact hs
  | cons n rest ih => exact ih (hs.answer (body_answer s n))

theorem exists_body (hs : Consistent h s) {subject sought : ClassName}
    (hn : node.modeled? = some (.exact subject sought)) : ∃ known, (s.body node).1 = .ok known := by
  have ha := body_answer s node
  generalize (s.body node).1 = r at ha ⊢
  generalize (s.body node).2 = s' at ha
  cases ha with
  | foreign hn' => exact absurd (hn'.symm.trans hn) (by simp)
  | kept hn' hk => exact ⟨_, rfl⟩
  | unpinned hn' hk hl => exact absurd (Option.some.inj (hn'.symm.trans hn)) (hl subject sought)
  | idle hn' hk hf => exact ⟨_, rfl⟩
  | failed hn' hk hf hb =>
    exact absurd hb (hs.bodyOf_ne_error (hs.declares_of_found hf).1 (Node.method_of_modeled? hn))
  | filled hn' hk hf hb => exact ⟨_, rfl⟩

/-- A new body is idle if nothing was found, and else it fills the stand-in for what was found. -/
theorem new_cases (hs : Consistent h s) {body : Body}
    (ha : Answer s node (.ok (s.bodies.length, body)) s') :
    body.method = node.method ∧ body.context = node.context ∧ ∃ subject sought,
      node.context = .lookup (.exact subject sought) ∧
      ((∀ use, s.hierarchy.finding subject sought ≠ .found use) ∧ body.Idle ∨
        ∃ use object, s.hierarchy.finding subject sought = .found use ∧
          (s.standIn subject use).2.hierarchy.firstFree node.method = .ok object ∧
          body.Fills (StandIn.name subject sought) object use.arguments.entries) := by
  cases ha with
  | kept hn hk =>
    have hget := getElem?_of_kept? hk
    rw [List.getElem?_eq_none (Nat.le_refl _)] at hget
    exact nomatch hget
  | idle hn hk hf =>
    exact ⟨rfl, rfl, _, _, Node.context_of_modeled? hn, .inl ⟨hf, Body.idle_empty _ _⟩⟩
  | filled hn hk hf hb =>
    obtain ⟨hd, rfl⟩ := hs.declares_of_found hf
    obtain ⟨object, hfree, hmethod, hcontext, hfills⟩ := hs.fills_of_bodyOf hd hb
    exact ⟨hmethod, hcontext, _, _, Node.context_of_modeled? hn, .inr ⟨_, object, hf, hfree, hfills⟩⟩

end Consistent

end Synthesizer

end AnnotationGraph
