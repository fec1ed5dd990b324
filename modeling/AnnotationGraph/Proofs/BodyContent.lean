import AnnotationGraph.Proofs.Consistency

/-!
# The body of a lookup is what was found for it

A body that is handed out says in its context for which lookup it was made.  When it was made, it
became the body of that lookup as the hierarchy then stood: idle if there was nothing to find, and
else filling the stand-in for the annotation that was found.  Later requests may meet classes that
were not there then, but do not change it.

* `Body.IsFor`    what the body of a lookup is in a hierarchy;
* `body_isFor`    every body of a run is that of its context.
-/

namespace AnnotationGraph

/-- The body of the lookup of an annotation on a class: idle if one of the two classes is not there
or the first has no annotation of the type, and else filling the stand-in for the first annotation
of the type, its arguments in ascending order of their names. -/
structure Body.IsFor (b : Body) (h : Hierarchy) (subject sought : ClassName) : Prop where
  idle : h.lookup? subject = none ∨ h.lookup? sought = none ∨
    (∃ c, h.lookup? subject = some c ∧ c.annotations.find? (·.type = sought) = none) → b.Idle
  fills : ∀ c use, h.lookup? subject = some c → h.lookup? sought ≠ none →
    c.annotations.find? (·.type = sought) = some use →
    ∃ object, b.Fills (StandIn.name subject sought) object use.arguments.entries

namespace Synthesizer

variable {h : Hierarchy} {s s' : Synthesizer} {node : Node} {id : Nat} {body : Body}

theorem isFor_of_idle {subject sought : ClassName} (hb : body.Idle)
    (hf : ∀ use, s.hierarchy.finding subject sought ≠ .found use) :
    body.IsFor s.hierarchy subject sought where
  idle _ := hb
  fills c use hc ha hu := absurd (Hierarchy.finding_eq_found.2 ⟨c, hc, ha, hu⟩) (hf use)

theorem isFor_of_fills {subject sought : ClassName} {use : AnnotationUse} {object : Nat}
    (hb : body.Fills (StandIn.name subject sought) object use.arguments.entries)
    (hf : s.hierarchy.finding subject sought = .found use) :
    body.IsFor s.hierarchy subject sought := by
  obtain ⟨c, hc, ha, hu⟩ := Hierarchy.finding_eq_found.1 hf
  constructor
  · rintro (hnone | hnone | ⟨c', hc', hnone⟩)
    · exact absurd (hc.symm.trans hnone) (by simp)
    · exact absurd hnone ha
    · rw [Option.some.inj (hc'.symm.trans hc), hu] at hnone
      exact nomatch hnone
  · intro c' use' hc' _ hu'
    rw [Option.some.inj (hc'.symm.trans hc), hu] at hu'
    rw [← Option.some.inj hu']
    exact ⟨object, hb⟩

theorem Consistent.isFor_of_new (hs : Consistent h s)
    (ha : Answer s node (.ok (s.bodies.length, body)) s') :
    ∃ subject sought, body.context = .lookup (.exact subject sought) ∧
      body.IsFor s.hierarchy subject sought := by
  obtain ⟨_, hcontext, subject, sought, hlookup, hnew⟩ := hs.new_cases ha
  refine ⟨subject, sought, hcontext.trans hlookup, ?_⟩
  rcases hnew with ⟨hf, hidle⟩ | ⟨use, object, hf, _, hfills⟩
  · exact isFor_of_idle hidle hf
  · exact isFor_of_fills hfills hf

/-- **Every body of a run is that of its context.**  Among the requests up to the one that hands a
body out is the one that made it, and the body is that of the lookup in its context in the hierarchy
as it stood then. -/
theorem body_isFor (h : Hierarchy) (fresh : h.standIns = .empty) (requests : List Node)
    (node : Node) (id : Nat) (body : Body)
    (hb : (((ofHierarchy h).run requests).body node).1 = .ok (id, body)) :
    ∃ before maker after, requests ++ [node] = before ++ maker :: after ∧
      ((ofHierarchy h).run before).bodies.length = id ∧
      (((ofHierarchy h).run before).body maker).1 = .ok (id, body) ∧
      ∃ subject sought, body.context = .lookup ⟨.point subject, .point sought⟩ ∧
        body.IsFor ((ofHierarchy h).run before).hierarchy subject sought := by
  obtain ⟨before, maker, after, hsplit, hid, hmade, _⟩ := maker_of_body hb
  refine ⟨before, maker, after, hsplit, hid, hmade, ?_⟩
  have hs := (consistent_ofHierarchy fresh).run before
  have hnew := body_answer ((ofHierarchy h).run before) maker
  rw [hmade, ← hid] at hnew
  exact hs.isFor_of_new hnew

def labelledShop : Hierarchy := .ofClasses
  [ ⟨"p/Shop", some objectClass, [],
      [⟨"p/Label", .ofList
        [("text", .constant (.string "open")),
          ("prices", .array [.array [.constant (.int 3), .constant (.int 4)], .array []])]⟩],
      [], [], true⟩,
    ⟨"p/Label", some objectClass, [], [], [], [], false⟩ ]

def shopBody : Body where
  method := Operation.onClass.method
  context := .lookup (.exact "p/Shop" "p/Label")
  code := .ofInstructions
    [ ⟨0, .new 3 ⟨0, "synthetic/annotation/p_0Shop$p_0Label"⟩⟩,
      ⟨1, .put 3 4 ⟨"synthetic/annotation/p_0Shop$p_0Label", "prices", integerClass⟩⟩,
      ⟨2, .put 3 5 ⟨"synthetic/annotation/p_0Shop$p_0Label", "text", stringClass⟩⟩,
      ⟨3, .leave (some 3)⟩ ]
  constants := .ofList [(4, "[[3, 4], []]"), (5, "open")]

theorem body_isFor_shop :
    labelledShop.standIns = .empty ∧
    (((ofHierarchy labelledShop).run [(Lookup.exact "p/Shop" "p/Other").node]).body
      (Lookup.exact "p/Shop" "p/Label").node).1 = .ok (1, shopBody) ∧
    ∃ before maker after,
      [(Lookup.exact "p/Shop" "p/Other").node] ++ [(Lookup.exact "p/Shop" "p/Label").node]
        = before ++ maker :: after ∧
      ((ofHierarchy labelledShop).run before).bodies.length = 1 ∧
      (((ofHierarchy labelledShop).run before).body maker).1 = .ok (1, shopBody) ∧
      ∃ subject sought, shopBody.context = .lookup ⟨.point subject, .point sought⟩ ∧
        shopBody.IsFor ((ofHierarchy labelledShop).run before).hierarchy subject sought := by
  have hb : (((ofHierarchy labelledShop).run [(Lookup.exact "p/Shop" "p/Other").node]).body
      (Lookup.exact "p/Shop" "p/Label").node).1 = .ok (1, shopBody) := by decide +kernel
  exact ⟨rfl, hb, body_isFor labelledShop rfl _ _ 1 shopBody hb⟩

end Synthesizer

end AnnotationGraph
