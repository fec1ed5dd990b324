import AnnotationGraph.Proofs.Consistency
import AnnotationGraph.Proofs.Graph
import AnnotationGraph.Proofs.Target

/-!
# What every exploration keeps

Under the standard selector, and with one synthesizer that alone makes classes up, all nodes for
which bodies are made are lookups of one class on another.  So no step on a known node fails, in
whatever order methods are entered, calls are followed and bodies are asked for.

* `Exploration.Move`, `step`, `run`   steps in any order; a step that fails leaves all as it is;
* `Exploration.Sound`                 the invariant;
* `Sound.step`, `Sound.run`           steps keep it;
* `Sound.body`                        a request for the body of a known node.
-/

namespace AnnotationGraph.Exploration

/-! ### Steps in any order -/

inductive Move where
  | enter (m : MethodRef)
  | follow (caller : Nat) (call : Call)
  | body (id : Nat)

def step (x : Exploration) : Move → Exploration
  | .enter m => (x.enter m).2
  | .follow caller call =>
    match x.follow caller call with
    | .ok (_, y) => y
    | .error _ => x
  | .body id => (x.body id).2

def run (x : Exploration) (moves : List Move) : Exploration := moves.foldl step x

theorem step_follow_ok {x y : Exploration} {caller : Nat} {call : Call} {callee : Option Nat}
    (h : x.follow caller call = .ok (callee, y)) : x.step (.follow caller call) = y := by
  show (match x.follow caller call with
    | .ok (_, y) => y
    | .error _ => x) = y
  rw [h]

theorem step_follow_error {x : Exploration} {caller : Nat} {call : Call} {e : Error}
    (h : x.follow caller call = .error e) : x.step (.follow caller call) = x := by
  show (match x.follow caller call with
    | .ok (_, y) => y
    | .error _ => x) = x
  rw [h]

/-! ### Requests for bodies -/

theorem body_unknown (x : Exploration) {id : Nat} (hn : x.graph.node? id = none) :
    x.body id = (.error (.unknownNode id), x) := by
  unfold body
  rw [hn]

theorem body_unmodeled {x : Exploration} {id : Nat} {n : Node} (hn : x.graph.node? id = some n)
    (hl : n.modeled? = none) : x.body id = (.ok none, x) := by
  unfold body
  rw [hn]
  show (if n.modeled?.isSome then _ else _) = _
  rw [hl]
  rfl

theorem body_modeled {x : Exploration} {id : Nat} {n : Node} {l : Lookup}
    (hn : x.graph.node? id = some n) (hl : n.modeled? = some l) :
    x.body id = (((x.synthesizer.body n).1.map some).mapError .fault,
      { x with synthesizer := (x.synthesizer.body n).2 }) := by
  unfold body
  rw [hn]
  show (if n.modeled?.isSome then _ else _) = _
  rw [hl]
  rfl

/-! ### The invariant -/

/-- What every exploration keeps over the hierarchy of a program. -/
structure Sound (h : Hierarchy) (x : Exploration) : Prop where
  selector : x.selector = .standard
  consistent : x.synthesizer.Consistent h
  /-- bodies are made for lookups of one class on another alone -/
  exact : ∀ l : Lookup, l.node ∈ x.graph.nodes → ∃ subject sought, l = .exact subject sought
  /-- every body was made for a node of the graph -/
  made : ∀ p ∈ x.synthesizer.bodies, ∃ l : Lookup, l.node ∈ x.graph.nodes ∧
    p.1 = l.node.bodyKey l ∧ p.2.context = .lookup l
  linked : ∀ e ∈ x.graph.edges.keys, e.caller < x.graph.size ∧ e.callee < x.graph.size

variable {h : Hierarchy} {x : Exploration} {n : Node} {id : Nat}

theorem sound_start (fresh : h.standIns = .empty) : Sound h (start .standard h) where
  selector := rfl
  consistent := Synthesizer.consistent_ofHierarchy fresh
  exact _ hl := nomatch hl
  made _ hp := nomatch hp
  linked _ he := nomatch he

namespace Sound

theorem addNode (hx : Sound h x) (n : Node)
    (hn : ∀ l : Lookup, n = l.node → ∃ subject sought, l = .exact subject sought) :
    Sound h { x with graph := (x.graph.addNode n).2 } where
  selector := hx.selector
  consistent := hx.consistent
  exact l hl := by
    rcases CallGraph.mem_addNode hl with hl | hl
    · exact hx.exact l hl
    · exact hn l hl.symm
  made p hp := by
    obtain ⟨l, hl, hkey, hcontext⟩ := hx.made p hp
    exact ⟨l, (CallGraph.prefix_addNode x.graph n).subset hl, hkey, hcontext⟩
  linked e he := by
    change e ∈ (x.graph.addNode n).2.edges.keys at he
    rw [CallGraph.edges_addNode] at he
    have hsize := CallGraph.size_le_addNode x.graph n
    obtain ⟨hcaller, hcallee⟩ := hx.linked e he
    exact ⟨Nat.lt_of_lt_of_le hcaller hsize, Nat.lt_of_lt_of_le hcallee hsize⟩

theorem addEdge (hx : Sound h x) {e : Edge} (he : e.caller < x.graph.size ∧ e.callee < x.graph.size) :
    Sound h { x with graph := x.graph.addEdge e } where
  selector := hx.selector
  consistent := hx.consistent
  exact := hx.exact
  made := hx.made
  linked e' he' := by
    rcases OrderedSet.mem_keys_add.1 he' with rfl | he'
    · exact he
    · exact hx.linked e' he'

theorem enter (hx : Sound h x) (m : MethodRef) : Sound h (x.enter m).2 :=
  hx.addNode ⟨m, .everywhere⟩ fun _ hl => nomatch (Node.mk.inj hl).2

theorem link (hx : Sound h x) {caller : Nat} (hc : caller < x.graph.size) {call : Call}
    (hn : x.hierarchy.target? call = some n) : Sound h (x.link caller call.offset n) := by
  have hadd := hx.addNode n fun l hl =>
    Hierarchy.exact_of_target? hn (Node.modeled?_eq_some_iff.2 hl)
  exact hadd.addEdge
    ⟨Nat.lt_of_lt_of_le hc (CallGraph.size_le_addNode _ _), CallGraph.addNode_lt _ _⟩

theorem follow (hx : Sound h x) {caller : Nat} (hc : caller < x.graph.size) (call : Call) :
    ∃ callee y, x.follow caller call = .ok (callee, y) ∧ Sound h y ∧
      x.graph.nodes <+: y.graph.nodes ∧ (callee = none → y = x) := by
  obtain ⟨node, hnode⟩ := CallGraph.exists_node? hc
  rw [follow_standard hx.selector hnode]
  cases hn : x.hierarchy.target? call with
  | none => exact ⟨none, x, rfl, hx, List.prefix_refl _, fun _ => rfl⟩
  | some n =>
    exact ⟨_, _, rfl, hx.link hc hn, CallGraph.prefix_addNode _ _, fun hnone => nomatch hnone⟩

theorem request (hx : Sound h x) {l : Lookup} (hl : l.node ∈ x.graph.nodes) :
    Sound h { x with synthesizer := (x.synthesizer.body l.node).2 } where
  selector := hx.selector
  consistent := hx.consistent.answer (Synthesizer.body_answer x.synthesizer l.node)
  exact := hx.exact
  made p hp := by
    rcases (Synthesizer.body_answer x.synthesizer l.node).bodies with
      hsame | ⟨subject, sought, body, hmodeled, _, hadd, hcontext⟩
    · exact hx.made p (hsame ▸ hp)
    · change p ∈ (x.synthesizer.body l.node).2.bodies at hp
      rw [hadd] at hp
      rcases List.mem_append.1 hp with hp | hp
      · exact hx.made p hp
      · rw [List.mem_singleton.1 hp]
        have hexact : l = .exact subject sought :=
          Option.some.inj ((Node.modeled?_node l).symm.trans hmodeled)
        exact ⟨l, hl, by rw [← hexact], hcontext⟩
  linked := hx.linked

/-- A request for the body of a known node gives none if no bodies are made for the node, and else a
body that was made for a node of the graph with the same key. -/
theorem body (hx : Sound h x) (hn : x.graph.node? id = some n) :
    (n.modeled? = none ∧ x.body id = (.ok none, x)) ∨
      ∃ l k bodyId made, n = Lookup.node l ∧ (x.body id).1 = .ok (some (bodyId, made)) ∧
        Sound h (x.body id).2 ∧ (x.body id).2.graph = x.graph ∧
        Lookup.node k ∈ x.graph.nodes ∧ made.context = .lookup k ∧
        l.node.bodyKey l = k.node.bodyKey k := by
  cases hl : n.modeled? with
  | none => exact .inl ⟨rfl, body_unmodeled hn hl⟩
  | some l =>
    have hbody := body_modeled hn hl
    have hnode : n = l.node := Node.modeled?_eq_some_iff.1 hl
    rw [hnode] at hbody
    have hmem : l.node ∈ x.graph.nodes := hnode ▸ CallGraph.mem_of_node? hn
    obtain ⟨subject, sought, rfl⟩ := hx.exact l hmem
    obtain ⟨⟨bodyId, made⟩, hok⟩ := hx.consistent.exists_body (Node.modeled?_node _)
    have hanswer := Synthesizer.body_answer x.synthesizer (Lookup.exact subject sought).node
    rw [hok] at hanswer
    obtain ⟨l, hl', hstored⟩ := hanswer.stored
    rw [← Option.some.inj ((Node.modeled?_node _).symm.trans hl')] at hstored
    have hnext := hx.request hmem
    obtain ⟨k, hk, hkey, hcontext⟩ := hnext.made _ (List.mem_of_getElem? hstored)
    refine .inr ⟨_, k, bodyId, made, hnode, ?_, ?_, ?_, hk, hcontext, hkey⟩
    · rw [hbody, hok]
      rfl
    · rw [hbody]
      exact hnext
    · rw [hbody]

theorem body_snd (hx : Sound h x) (id : Nat) : Sound h (x.body id).2 := by
  cases hn : x.graph.node? id with
  | none =>
    rw [body_unknown x hn]
    exact hx
  | some n =>
    rcases hx.body hn with ⟨_, hnone⟩ | ⟨_, _, _, _, _, _, hnext, _⟩
    · rw [hnone]
      exact hx
    · exact hnext

theorem step (hx : Sound h x) (a : Move) : Sound h (x.step a) := by
  cases a with
  | enter m => exact hx.enter m
  | follow caller call =>
    by_cases hc : caller < x.graph.size
    · obtain ⟨callee, y, hok, hy, _⟩ := hx.follow hc call
      rw [step_follow_ok hok]
      exact hy
    · have hnone := CallGraph.node?_eq_none_iff.2 (Nat.le_of_not_lt hc)
      rw [step_follow_error (follow_unknown x hnone call)]
      exact hx
  | body id => exact hx.body_snd id

theorem run (hx : Sound h x) (moves : List Move) : Sound h (x.run moves) := by
  induction moves generalizing x with
  | nil => exact hx
  | cons a rest ih => exact ih (hx.step a)

end Sound

end AnnotationGraph.Exploration
