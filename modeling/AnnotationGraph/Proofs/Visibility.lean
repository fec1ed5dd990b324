import AnnotationGraph.Proofs.Registration

/-!
# What a body allocates is seen unless the program hides it

A body allocates a class that was made up for it.  The class stays registered under its name, but
names are sought among the classes of the program first, and registering a class does not look there.
So a class of the program with the name of a stand-in hides it.

* `Synthesizer.MadeFor`             the class for what a body allocates;
* `Synthesizer.madeFor_allocated`   the class is registered, and when it is seen;
* `Synthesizer.allocated_hidden`    a program that hides one.
-/

namespace AnnotationGraph.Synthesizer

/-- A class was made up for what a body allocates under a name: it is registered under the name and
noted for the subject and the annotation, it implements the annotation's type, and it declares every
field that the body writes, with the type with which it is written. -/
structure MadeFor (s : Synthesizer) (b : Body) (subject sought type : ClassName) (c : Class) :
    Prop where
  registered : s.hierarchy.standIns.lookup? type = some c
  noted : ((subject, sought), c) ∈ s.standIns
  interface : sought ∈ c.interfaces
  fields : ∀ i ∈ b.instructions, ∀ object value f, i.action = .put object value f →
    f.owner = c.name ∧ c.field? f.name = some ⟨f.name, f.type⟩

variable {s : Synthesizer} {body : Body} {i : Instruction}

theorem InStep.madeFor (hi : InStep s) {subject : ClassName} {use : AnnotationUse} {object : Nat}
    (hnoted : ((subject, use.type), StandIn.ofUse subject use) ∈ s.standIns)
    (hb : body.Fills (StandIn.name subject use.type) object use.arguments.entries) :
    MadeFor s body subject use.type (StandIn.name subject use.type) (StandIn.ofUse subject use) where
  registered := (hi.held _ _).2 ⟨_, hnoted, rfl, rfl⟩
  noted := hnoted
  interface := List.mem_singleton_self use.type
  fields i hmem o v f hput := by
    rcases hb.instruction_cases hmem with hnew | ⟨a, ha, value, hwrite⟩ | hleave
    · exact nomatch hput.symm.trans hnew
    · obtain ⟨_, _, rfl⟩ := Action.put.inj (hput.symm.trans hwrite)
      exact ⟨rfl, StandIn.field?_ofUse subject ha⟩
    · exact nomatch hput.symm.trans hleave

theorem InStep.exists_madeFor (hi : InStep s) {key : String} (hkept : (key, body) ∈ s.bodies)
    {subject sought : ClassName} (hcontext : body.context = .lookup (.exact subject sought))
    (hmem : i ∈ body.instructions) {result : Nat} {site : AllocationSite}
    (hnew : i.action = .new result site) :
    site.type = StandIn.name subject sought ∧ ∃ c, MadeFor s body subject sought site.type c := by
  obtain ⟨subject', use, object, hnoted, hcontext', hfills⟩ :=
    hi.filled _ hkept (List.ne_nil_of_mem hmem)
  obtain ⟨rfl, rfl⟩ := Lookup.exact_inj (Context.lookup.inj (hcontext'.symm.trans hcontext))
  have htype : site.type = StandIn.name subject' use.type := by
    rcases hfills.instruction_cases hmem with halloc | ⟨_, _, _, hput⟩ | hleave
    · rw [(Action.new.inj (hnew.symm.trans halloc)).2]
    · exact nomatch hnew.symm.trans hput
    · exact nomatch hnew.symm.trans hleave
  rw [htype]
  exact ⟨rfl, _, hi.madeFor hnoted hfills⟩

theorem mem_bodies_run {before : List Node} {node : Node} {id : Nat}
    (hb : ((s.run before).body node).1 = .ok (id, body)) (after : List Node) :
    ∃ key, (key, body) ∈ (s.run (before ++ node :: after)).bodies := by
  have ha := body_answer (s.run before) node
  rw [hb] at ha
  obtain ⟨l, _, hstored⟩ := ha.stored
  rw [run_append, run_cons]
  exact ⟨_, (prefix_bodies_run after _).subset (List.mem_of_getElem? hstored)⟩

/-- **What a body allocates is registered, and it is seen exactly if the program does not hide it.**
After any further requests the class under the allocated name is the one that was made up for the
subject and the annotation of the body.  The hierarchy shows that class unless the program has another
one of the name. -/
theorem madeFor_allocated (classes : List Class) (before : List Node) (node : Node)
    (after : List Node) (id : Nat) (body : Body)
    (hb : (((ofHierarchy (.ofClasses classes)).run before).body node).1 = .ok (id, body)) :
    ∃ subject sought, body.context = .lookup (.exact subject sought) ∧
      ∀ i ∈ body.instructions, ∀ result site, i.action = .new result site →
        site.type = StandIn.name subject sought ∧
        ∃ c, MadeFor ((ofHierarchy (.ofClasses classes)).run (before ++ node :: after)) body
            subject sought site.type c ∧
          (((ofHierarchy (.ofClasses classes)).run (before ++ node :: after)).hierarchy.lookup?
              site.type = some c ↔
            ∀ d, (Hierarchy.ofClasses classes).program.lookup? site.type = some d → d = c) := by
  obtain ⟨_, _, _, _, _, _, _, subject, sought, _, _, _, hcontext⟩ := maker_of_body hb
  have hs := (consistent_ofHierarchy (h := .ofClasses classes) rfl).run (before ++ node :: after)
  have hi := (matched_run (h := .ofClasses classes) rfl (before ++ node :: after)).toInStep
  obtain ⟨key, hkept⟩ := mem_bodies_run hb after
  refine ⟨subject, sought, hcontext, fun i hmem result site hnew => ?_⟩
  obtain ⟨htype, c, hc⟩ := hi.exists_madeFor hkept hcontext hmem hnew
  refine ⟨htype, c, hc, ?_⟩
  rw [Hierarchy.lookup?_registered_iff hc.registered, hs.program]

def card : List Class :=
  [ ⟨"p/Card", none, [], [⟨"p/Label", .ofList [("number", .constant (.int 1))]⟩], [], [], true⟩,
    ⟨"p/Label", none, [], [], [], [], true⟩ ]

def cardBody : Body where
  method := Operation.onClass.method
  context := .lookup (.exact "p/Card" "p/Label")
  code := .ofInstructions
    [ ⟨0, .new 3 ⟨0, "synthetic/annotation/p_0Card$p_0Label"⟩⟩,
      ⟨1, .put 3 4 ⟨"synthetic/annotation/p_0Card$p_0Label", "number", integerClass⟩⟩,
      ⟨2, .leave (some 3)⟩ ]
  constants := .ofList [(4, "1")]

theorem madeFor_allocated_card :
    ((ofHierarchy (.ofClasses card)).body (Lookup.exact "p/Card" "p/Label").node).1
      = .ok (0, cardBody) ∧
    ∃ c, MadeFor ((ofHierarchy (.ofClasses card)).run [(Lookup.exact "p/Card" "p/Label").node])
        cardBody "p/Card" "p/Label" "synthetic/annotation/p_0Card$p_0Label" c ∧
      ((ofHierarchy (.ofClasses card)).run [(Lookup.exact "p/Card" "p/Label").node]).hierarchy.lookup?
        "synthetic/annotation/p_0Card$p_0Label" = some c := by
  have hrun : ((ofHierarchy (.ofClasses card)).body (Lookup.exact "p/Card" "p/Label").node).1
        = .ok (0, cardBody) ∧
      ((Hierarchy.ofClasses card).program.lookup?
        "synthetic/annotation/p_0Card$p_0Label").isNone = true := by decide +kernel
  obtain ⟨hb, hnone⟩ := hrun
  obtain ⟨subject, sought, hcontext, hall⟩ := madeFor_allocated card [] _ [] 0 cardBody hb
  obtain ⟨rfl, rfl⟩ := Lookup.exact_inj (Context.lookup.inj hcontext)
  obtain ⟨_, c, hc, hseen⟩ := hall _ List.mem_cons_self _ _ rfl
  refine ⟨hb, c, hc, hseen.2 fun d hd => ?_⟩
  change (Hierarchy.ofClasses card).program.lookup? _ = _ at hd
  rw [hd] at hnone
  exact nomatch hnone

/-- The program of the card with a class that has the name of the stand-in for its label. -/
def hidingCard : List Class :=
  card ++ [⟨"synthetic/annotation/p_0Card$p_0Label", none, [], [], [], [], true⟩]

/-- What the body allocates is registered, but the hierarchy shows a class of the program. -/
theorem allocated_hidden :
    ((ofHierarchy (.ofClasses hidingCard)).body (Lookup.exact "p/Card" "p/Label").node).1
      = .ok (0, cardBody) ∧
    ∃ c d, c.interfaces = ["p/Label"] ∧ d.interfaces = [] ∧
      ((ofHierarchy (.ofClasses hidingCard)).body
        (Lookup.exact "p/Card" "p/Label").node).2.hierarchy.standIns.lookup?
          "synthetic/annotation/p_0Card$p_0Label" = some c ∧
      ((ofHierarchy (.ofClasses hidingCard)).body
        (Lookup.exact "p/Card" "p/Label").node).2.hierarchy.lookup?
          "synthetic/annotation/p_0Card$p_0Label" = some d := by
  generalize hs : (ofHierarchy (.ofClasses hidingCard)).body (Lookup.exact "p/Card" "p/Label").node = s
  have hall : s.1 = .ok (0, cardBody) ∧
      (s.2.hierarchy.standIns.lookup? "synthetic/annotation/p_0Card$p_0Label").map Class.interfaces
        = some ["p/Label"] ∧
      (s.2.hierarchy.lookup? "synthetic/annotation/p_0Card$p_0Label").map Class.interfaces
        = some [] := by subst hs; decide +kernel
  obtain ⟨hbody, hregistered, hshown⟩ := hall
  obtain ⟨c, hc, hinterfaces⟩ := Option.map_eq_some_iff.1 hregistered
  obtain ⟨d, hd, hnone⟩ := Option.map_eq_some_iff.1 hshown
  exact ⟨hbody, c, d, hinterfaces, hnone, hc, hd⟩

end AnnotationGraph.Synthesizer
