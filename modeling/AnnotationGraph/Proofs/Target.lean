import AnnotationGraph.Proofs.Selection
import AnnotationGraph.Proofs.Synthesis

/-!
# Where a call leads

Under the standard selector the node to which a call leads depends on the hierarchy and the call
alone: on neither the caller nor the arguments that are masked.

* `Hierarchy.target?`        the node to which a call leads;
* `follow_standard`          following a call adds its target and an edge to it;
* `target?_eq_node_iff`      which calls lead to the lookup of one class on another.
-/

namespace AnnotationGraph

def Hierarchy.target? (h : Hierarchy) (call : Call) : Option Node :=
  (h.resolve? call.target).map fun callee => ⟨callee, ((h.asked? call).map .lookup).getD .everywhere⟩

/-! ### The standard selector -/

theorem Selector.heeds_standard (h : Hierarchy) (caller : Node) (call : Call) (callee : MethodRef) :
    standard.Heeds h caller call callee := by
  apply heeds_of_rules
  intro r hr
  have hr : r = .lookups ∨ r = .everywhere := by simpa [standard, rules] using hr
  rcases hr with rfl | rfl
  · exact Rule.heeds_lookups h caller call callee
  · exact Rule.heeds_fixed _ _ h caller call callee

theorem Selector.target?_standard (h : Hierarchy) (caller : Node) (call : Call) :
    standard.target? h caller call = h.target? call := by
  have hcontext : ∀ callee,
      (standard.context? h ⟨caller, call, callee, call.arguments⟩).getD .everywhere
        = ((h.asked? call).map .lookup).getD .everywhere := by
    intro callee
    show ((Rule.lookups.context? h _ <|> some Context.everywhere).getD .everywhere) = _
    rw [Rule.context?_lookups]
    show ((Option.map _ (h.asked? call) <|> _).getD _) = _
    cases h.asked? call <;> rfl
  unfold Selector.target? Hierarchy.target?
  simp only [hcontext]

/-! ### Following a call -/

/-- Following a call of a known caller under the standard selector adds the target of the call and an
edge to it, and does nothing if the call does not resolve. -/
theorem Exploration.follow_standard {x : Exploration} (hx : x.selector = .standard) {caller : Nat}
    {node : Node} (hn : x.graph.node? caller = some node) (call : Call) :
    x.follow caller call = .ok (match x.hierarchy.target? call with
      | none => (none, x)
      | some n => (some (x.graph.addNode n).1, x.link caller call.offset n)) := by
  have hfollow : x.follow caller call = _ := follow_of_heeds hn fun callee _ =>
    hx ▸ Selector.heeds_standard x.hierarchy node call callee
  rw [hx, Selector.target?_standard] at hfollow
  exact hfollow

theorem Exploration.follow_unknown (x : Exploration) {caller : Nat}
    (hn : x.graph.node? caller = none) (call : Call) :
    x.follow caller call = .error (.unknownCaller caller) := by
  unfold follow
  rw [hn]

/-! ### Calls of lookups -/

theorem Operation.lookup?_onClass {arguments : List ObjectKey} {l : Lookup} :
    onClass.lookup? arguments = some l ↔ ∃ subject sought, l = .exact subject sought ∧
      arguments[0]? = some (.known (.classObject subject)) ∧
      arguments[1]? = some (.known (.classObject sought)) := by
  rw [lookup?_eq_some_iff]
  constructor
  · rintro ⟨_, _, sought, h0, hpins, h1, rfl⟩
    cases hpins with
    | onClass subject => exact ⟨subject, sought, rfl, h0, h1⟩
  · rintro ⟨subject, sought, rfl, h0, h1⟩
    exact ⟨_, _, sought, h0, .onClass subject, h1, rfl⟩

/-- A call leads to a node of lookups on class objects exactly if it resolves to the lookup method on
class objects and makes the lookup. -/
theorem Hierarchy.target?_eq_node_iff {h : Hierarchy} {call : Call} {l : Lookup} :
    h.target? call = some l.node ↔ h.resolve? call.target = some Operation.onClass.method ∧
      Operation.onClass.lookup? call.arguments = some l := by
  have hasked : h.resolve? call.target = some Operation.onClass.method →
      h.asked? call = Operation.onClass.lookup? call.arguments := by
    intro hr
    unfold asked? operation?
    rw [hr, Option.bind_some, Operation.of?_method]
    rfl
  unfold target?
  constructor
  · intro hn
    obtain ⟨callee, hr, hn⟩ := Option.map_eq_some_iff.1 hn
    obtain ⟨hm, hc⟩ := Node.mk.inj hn
    rw [hm] at hr
    refine ⟨hr, ?_⟩
    rw [← hasked hr]
    cases ha : h.asked? call with
    | none =>
      rw [ha] at hc
      exact nomatch hc
    | some k =>
      rw [ha] at hc
      rw [Context.lookup.inj hc]
  · rintro ⟨hr, hl⟩
    rw [hasked hr, hr, hl]
    rfl

theorem Hierarchy.exact_of_target? {h : Hierarchy} {call : Call} {n : Node} {l : Lookup}
    (hn : h.target? call = some n) (hl : n.modeled? = some l) :
    ∃ subject sought, l = .exact subject sought := by
  rw [Node.modeled?_eq_some_iff.1 hl] at hn
  obtain ⟨subject, sought, h, _⟩ := Operation.lookup?_onClass.1 (target?_eq_node_iff.1 hn).2
  exact ⟨subject, sought, h⟩

end AnnotationGraph
