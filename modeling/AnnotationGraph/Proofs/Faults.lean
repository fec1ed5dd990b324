import AnnotationGraph.Proofs.KeptBodies
import AnnotationGraph.Proofs.Visibility

/-!
# What a fault leaves behind

A request that ends in a fault makes no body and registers no class, whatever classes are registered.
It leaves everything as it was, with one exception: if another maker has registered a class under the
name of a stand-in, that class is noted as the stand-in before it turns out to lack a field.

* `Synthesizer.Preempted`     a class has the name of a stand-in that is not noted yet;
* `bodyOf_fault`              why there is no body for an annotation that was found;
* `body_fault`                what a fault leaves behind;
* `fault_notes_class`         a fault after which one stand-in more is counted.
-/

namespace AnnotationGraph

theorem exists_of_writes_error {c : Class} {object : Nat} {e : Fault}
    (arguments : List (String × Element)) :
    ∀ index, writes c object index arguments = .error e →
      ∃ a ∈ arguments, c.field? a.1 = none ∧ e = .missingField c.name a.1 := by
  induction arguments with
  | nil =>
    intro index h
    cases h
  | cons a rest ih =>
    intro index h
    unfold writes at h
    cases hfield : c.field? a.1 with
    | none =>
      rw [hfield] at h
      exact ⟨a, List.mem_cons_self, hfield, (Except.error.inj h).symm⟩
    | some f =>
      rw [hfield] at h
      cases hrest : writes c object (index + 1) rest with
      | ok puts =>
        rw [hrest] at h
        cases h
      | error e' =>
        rw [hrest] at h
        rw [Except.error.inj h] at hrest
        obtain ⟨b, hb, hmissing⟩ := ih _ hrest
        exact ⟨b, List.mem_cons_of_mem _ hb, hmissing⟩

namespace Synthesizer

variable {s s' : Synthesizer} {node : Node} {subject : ClassName} {use : AnnotationUse} {c : Class}
  {e : Fault}

/-- A request is for an annotation for which no stand-in is noted yet, but a class is registered under
the name of the stand-in. -/
structure Preempted (s : Synthesizer) (node : Node) (subject : ClassName) (use : AnnotationUse)
    (c : Class) : Prop where
  asked : node = (Lookup.exact subject use.type).node
  found : s.hierarchy.finding subject use.type = .found use
  new : s.standIns.lookup (subject, use.type) = none
  taken : s.hierarchy.standIns.lookup? (StandIn.name subject use.type) = some c

theorem standIn_taken (hnew : s.standIns.lookup (subject, use.type) = none)
    (hc : s.hierarchy.standIns.lookup? (StandIn.name subject use.type) = some c) :
    s.standIn subject use
      = (c, { s with standIns := s.standIns ++ [((subject, use.type), c)] }) := by
  have hregister : s.hierarchy.register (StandIn.ofUse subject use) = (c, s.hierarchy) := by
    unfold Hierarchy.register
    rw [show (StandIn.ofUse subject use).name = StandIn.name subject use.type from rfl, hc]
  unfold standIn
  rw [hnew, hregister]

theorem standIn_noted (hc : s.standIns.lookup (subject, use.type) = some c) :
    s.standIn subject use = (c, s) := by
  unfold standIn
  rw [hc]

theorem bodyOf_fault (hm : node.method = Operation.onClass.method)
    (he : (s.bodyOf node subject use).1 = .error e) :
    ∃ name ∈ use.arguments.keys, (s.standIn subject use).1.field? name = none ∧
      e = .missingField (s.standIn subject use).1.name name := by
  change ((s.standIn subject use).2.hierarchy.firstFree node.method >>= fun object =>
    instructionsFor (s.standIn subject use).1 object use.arguments.entries >>= fun instructions =>
      Except.ok (⟨node.method, node.context, instructions,
        .ofList (constantTexts (object + 1) use.arguments.entries)⟩ : Body)) = .error e at he
  obtain ⟨object, hfree⟩ := (s.standIn subject use).2.hierarchy.firstFree_onClass
  rw [hm, hfree] at he
  change (instructionsFor (s.standIn subject use).1 object use.arguments.entries >>= _) = _ at he
  unfold instructionsFor at he
  cases hputs : writes (s.standIn subject use).1 object 1 use.arguments.entries with
  | ok puts =>
    rw [hputs] at he
    exact nomatch he
  | error e' =>
    rw [hputs] at he
    rw [Except.error.inj he] at hputs
    obtain ⟨a, ha, hmissing⟩ := exists_of_writes_error _ _ hputs
    exact ⟨a.1, List.mem_map_of_mem ha, hmissing⟩

theorem standIn_ne_ofUse (hm : node.method = Operation.onClass.method)
    (he : (s.bodyOf node subject use).1 = .error e) :
    (s.standIn subject use).1 ≠ StandIn.ofUse subject use := by
  intro hown
  obtain ⟨name, hname, hmissing, _⟩ := bodyOf_fault hm he
  obtain ⟨a, ha, rfl⟩ := List.mem_map.1 hname
  rw [hown, StandIn.field?_ofUse subject ha] at hmissing
  exact nomatch hmissing

theorem Preempted.unique {subject' : ClassName} {use' : AnnotationUse} {c' : Class}
    (h : s.Preempted node subject use c) (h' : s.Preempted node subject' use' c') :
    subject = subject' ∧ use = use' ∧ c = c' := by
  have hlookup := Context.lookup.inj (Node.mk.inj (h.asked.symm.trans h'.asked)).2
  obtain ⟨rfl, htype⟩ := Lookup.exact_inj hlookup
  have hfound := h.found
  rw [htype, h'.found] at hfound
  obtain rfl := Finding.found.inj hfound
  exact ⟨rfl, rfl, Option.some.inj (h.taken.symm.trans h'.taken)⟩

/-- A fault either changes nothing or notes a class that has the name of a stand-in. -/
theorem fault_cases (ha : Answer s node (.error e) s') :
    s' = s ∧ (∀ subject use c, ¬ s.Preempted node subject use c) ∨
      ∃ subject use c, s.Preempted node subject use c ∧
        s' = { s with standIns := s.standIns ++ [((subject, use.type), c)] } ∧
        ∃ name ∈ use.arguments.keys, c.field? name = none ∧ e = .missingField c.name name := by
  cases ha with
  | foreign hn =>
    refine .inl ⟨rfl, fun subject use c h => ?_⟩
    rw [h.asked, Node.modeled?_node] at hn
    exact nomatch hn
  | unpinned hn hk hl =>
    refine .inl ⟨rfl, fun subject use c h => ?_⟩
    rw [h.asked, Node.modeled?_node] at hn
    exact hl _ _ (Option.some.inj hn).symm
  | @failed subject sought use _ hn hk hf hb =>
    obtain ⟨_, _, _, huse⟩ := Hierarchy.finding_eq_found.1 hf
    obtain rfl := Class.type_of_find? huse
    have hm := Node.method_of_modeled? hn
    have hasked := Node.modeled?_eq_some_iff.1 hn
    cases hnoted : s.standIns.lookup (subject, use.type) with
    | some d =>
      refine .inl ⟨by rw [standIn_noted hnoted], fun subject' use' c h => ?_⟩
      have hlookup := Context.lookup.inj (Node.mk.inj (hasked.symm.trans h.asked)).2
      obtain ⟨rfl, htype⟩ := Lookup.exact_inj hlookup
      rw [htype, h.new] at hnoted
      exact nomatch hnoted
    | none =>
      cases hc : s.hierarchy.standIns.lookup? (StandIn.name subject use.type) with
      | none => exact absurd (by rw [standIn_new hnoted hc]) (standIn_ne_ofUse hm hb)
      | some c =>
        have hmissing := bodyOf_fault hm hb
        rw [standIn_taken hnoted hc] at hmissing ⊢
        exact .inr ⟨subject, use, c, ⟨hasked, hf, hnoted, hc⟩, rfl, hmissing⟩

/-- **A fault leaves everything as it was, unless another class has the name of the stand-in.**  No
body is made and no class is registered.  Exactly if a class is registered under the name of a
stand-in that is not noted yet, something changes: that class is noted. -/
theorem body_fault (s : Synthesizer) (node : Node) (e : Fault) (he : (s.body node).1 = .error e) :
    (s.body node).2.bodies = s.bodies ∧ (s.body node).2.hierarchy = s.hierarchy ∧
    ((s.body node).2 = s ↔ ∀ subject use c, ¬ s.Preempted node subject use c) ∧
    ∀ subject use c, s.Preempted node subject use c →
      (s.body node).2 = { s with standIns := s.standIns ++ [((subject, use.type), c)] } ∧
      ∃ name ∈ use.arguments.keys, c.field? name = none ∧ e = .missingField c.name name := by
  have ha := body_answer s node
  rw [he] at ha
  rcases fault_cases ha with ⟨hsame, hfree⟩ | ⟨subject, use, c, hp, hnext, hmissing⟩
  · rw [hsame]
    exact ⟨rfl, rfl, iff_of_true rfl hfree, fun subject use c hp => absurd hp (hfree subject use c)⟩
  · rw [hnext]
    refine ⟨rfl, rfl, iff_of_false ?_ fun hfree => hfree subject use c hp, ?_⟩
    · intro hsame
      have hlength := congrArg (fun s => s.standIns.length) hsame
      simp at hlength
    · intro subject' use' c' hp'
      obtain ⟨rfl, rfl, rfl⟩ := hp.unique hp'
      exact ⟨rfl, hmissing⟩

def preemptedCard : Synthesizer := (ofHierarchy (.ofClasses card)).step
  (.register ⟨"synthetic/annotation/p_0Card$p_0Label", none, [], [], [], [], false⟩)

theorem body_fault_preempted :
    (preemptedCard.body (Lookup.exact "p/Card" "p/Label").node).1
      = .error (.missingField "synthetic/annotation/p_0Card$p_0Label" "number") ∧
    (preemptedCard.body (Lookup.exact "p/Card" "p/Label").node).2.bodies = preemptedCard.bodies ∧
    (preemptedCard.body (Lookup.exact "p/Card" "p/Label").node).2.hierarchy
      = preemptedCard.hierarchy ∧
    ∃ subject use c, preemptedCard.Preempted (Lookup.exact "p/Card" "p/Label").node subject use c ∧
      (preemptedCard.body (Lookup.exact "p/Card" "p/Label").node).2
        = { preemptedCard with
          standIns := preemptedCard.standIns ++ [((subject, use.type), c)] } := by
  have hrun : (preemptedCard.body (Lookup.exact "p/Card" "p/Label").node).1
        = .error (.missingField "synthetic/annotation/p_0Card$p_0Label" "number") ∧
      (preemptedCard.body (Lookup.exact "p/Card" "p/Label").node).2.standInCount
        ≠ preemptedCard.standInCount := by decide +kernel
  obtain ⟨hfault, hcount⟩ := hrun
  obtain ⟨hbodies, hhierarchy, hsame, hnoted⟩ := body_fault _ _ _ hfault
  have hpreempted : ∃ subject use c,
      preemptedCard.Preempted (Lookup.exact "p/Card" "p/Label").node subject use c := by
    by_contra hfree
    refine hcount (congrArg standInCount (hsame.2 fun subject use c hp => ?_))
    exact hfree ⟨subject, use, c, hp⟩
  obtain ⟨subject, use, c, hp⟩ := hpreempted
  exact ⟨hfault, hbodies, hhierarchy, subject, use, c, hp, (hnoted subject use c hp).1⟩

/-- There is no body for the label of the card, and still a stand-in is counted. -/
theorem fault_notes_class :
    (preemptedCard.body (Lookup.exact "p/Card" "p/Label").node).1
      = .error (.missingField "synthetic/annotation/p_0Card$p_0Label" "number") ∧
    preemptedCard.standInCount = 0 ∧
    (preemptedCard.body (Lookup.exact "p/Card" "p/Label").node).2.standInCount = 1 := by
  decide +kernel

end Synthesizer

end AnnotationGraph
