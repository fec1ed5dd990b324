import AnnotationGraph.Proofs.Trace

/-!
# Two analyses in lockstep

When the calls inside two programs lead to the same nodes, their analyses have the same graph and make
the same requests.  If moreover the hierarchies answer these requests alike, and go on to do so when a
class is made up, then the records of the two synthesizers stay the same, and so do all reports.

* `Hierarchy.Answering`        a relation of hierarchies that answer certain lookups alike;
* `Synthesizer.Lockstep`       synthesizers over related hierarchies, with the same records;
* `Lockstep.body`              a request has the same answer and keeps the records the same;
* `Analysis.reportAll_lockstep` edges are reported alike;
* `Analysis.run_of_lockstep`   the analyses are equal.
-/

namespace AnnotationGraph

variable {R : Hierarchy → Hierarchy → Prop} {asked : Lookup → Prop}

/-- Related hierarchies give the same answers to certain lookups, and stay related when a class is made
up. -/
structure Hierarchy.Answering (R : Hierarchy → Hierarchy → Prop) (asked : Lookup → Prop) : Prop where
  finding : ∀ {h k}, R h k → ∀ {subject sought}, asked (.exact subject sought) →
    h.finding subject sought = k.finding subject sought
  firstFree : ∀ {h k}, R h k →
    h.firstFree Operation.onClass.method = k.firstFree Operation.onClass.method
  register : ∀ {h k}, R h k → ∀ c,
    (h.register c).1 = (k.register c).1 ∧ R (h.register c).2 (k.register c).2

/-! ### Requests -/

namespace Synthesizer

structure Lockstep (R : Hierarchy → Hierarchy → Prop) (s t : Synthesizer) : Prop where
  hierarchy : R s.hierarchy t.hierarchy
  bodies : s.bodies = t.bodies
  standIns : s.standIns = t.standIns
  warnings : s.warnings = t.warnings

namespace Lockstep

variable {s t : Synthesizer} {node : Node} {l : Lookup}

theorem ofHierarchy {h k : Hierarchy} (hk : R h k) : Lockstep R (.ofHierarchy h) (.ofHierarchy k) :=
  ⟨hk, rfl, rfl, rfl⟩

theorem kept? (hst : Lockstep R s t) (key : String) : s.kept? key = t.kept? key := by
  unfold Synthesizer.kept?
  rw [hst.bodies]

theorem warn (hst : Lockstep R s t) (w : Warning) : Lockstep R (s.warn w) (t.warn w) :=
  ⟨hst.hierarchy, hst.bodies, hst.standIns, congrArg (· ++ [w]) hst.warnings⟩

theorem standIn (hR : Hierarchy.Answering R asked) (hst : Lockstep R s t) (subject : ClassName)
    (use : AnnotationUse) : (s.standIn subject use).1 = (t.standIn subject use).1 ∧
      Lockstep R (s.standIn subject use).2 (t.standIn subject use).2 := by
  obtain ⟨hclass, hnext⟩ := hR.register hst.hierarchy (StandIn.ofUse subject use)
  unfold Synthesizer.standIn
  rw [← hst.standIns]
  cases s.standIns.lookup (subject, use.type) with
  | some c => exact ⟨rfl, hst⟩
  | none =>
    have hnoted := congrArg (fun c => s.standIns ++ [((subject, use.type), c)]) hclass
    exact ⟨hclass, hnext, hst.bodies, hnoted, hst.warnings⟩

theorem bodyOf (hR : Hierarchy.Answering R asked) (hst : Lockstep R s t)
    (hm : node.method = Operation.onClass.method) (subject : ClassName) (use : AnnotationUse) :
    (s.bodyOf node subject use).1 = (t.bodyOf node subject use).1 ∧
      Lockstep R (s.bodyOf node subject use).2 (t.bodyOf node subject use).2 := by
  obtain ⟨hclass, hnext⟩ := hst.standIn hR subject use
  refine ⟨?_, hnext⟩
  unfold Synthesizer.bodyOf
  generalize s.standIn subject use = p at hclass hnext ⊢
  generalize t.standIn subject use = q at hclass hnext ⊢
  dsimp only
  rw [hclass, hm, hR.firstFree hnext.hierarchy]

theorem synthesize (hR : Hierarchy.Answering R asked) (hst : Lockstep R s t)
    (hm : node.method = Operation.onClass.method) (hl : asked l) :
    (s.synthesize node l).1 = (t.synthesize node l).1 ∧
      Lockstep R (s.synthesize node l).2 (t.synthesize node l).2 := by
  by_cases hexact : ∃ subject sought, l = .exact subject sought
  · obtain ⟨subject, sought, rfl⟩ := hexact
    rw [synthesize_exact, synthesize_exact, ← hR.finding hst.hierarchy hl]
    cases s.hierarchy.finding subject sought with
    | subjectNotFound => exact ⟨rfl, hst.warn _⟩
    | soughtNotFound => exact ⟨rfl, hst.warn _⟩
    | absent => exact ⟨rfl, hst⟩
    | found use => exact hst.bodyOf hR hm subject use
  · have hnot : ∀ subject sought, l ≠ .exact subject sought :=
      fun subject sought h => hexact ⟨subject, sought, h⟩
    obtain ⟨e, hfault⟩ := synthesize_unpinned hnot
    rw [hfault, hfault]
    exact ⟨rfl, hst⟩

/-- A request for a node whose lookup is answered alike has the same answer, and the records stay the
same. -/
theorem body (hR : Hierarchy.Answering R asked) (hst : Lockstep R s t)
    (hnode : ∀ l, node.modeled? = some l → asked l) :
    (s.body node).1 = (t.body node).1 ∧ Lockstep R (s.body node).2 (t.body node).2 := by
  cases hn : node.modeled? with
  | none =>
    rw [body_of_foreign hn, body_of_foreign hn]
    exact ⟨rfl, hst⟩
  | some l =>
    cases hk : s.kept? (node.bodyKey l) with
    | some known =>
      rw [body_of_kept hn hk, body_of_kept hn (hst.kept? _ ▸ hk)]
      exact ⟨rfl, hst⟩
    | none =>
      rw [body_of_new hn hk, body_of_new hn (hst.kept? _ ▸ hk)]
      obtain ⟨hresult, hnext⟩ := hst.synthesize hR (Node.method_of_modeled? hn) (hnode l hn)
      generalize s.synthesize node l = p at hresult hnext ⊢
      generalize t.synthesize node l = q at hresult hnext ⊢
      obtain ⟨result, s'⟩ := p
      obtain ⟨result', t'⟩ := q
      obtain rfl : result = result' := hresult
      cases result with
      | error e => exact ⟨rfl, hnext⟩
      | ok body =>
        refine ⟨?_, hnext.hierarchy, ?_, hnext.standIns, hnext.warnings⟩
        · show Except.ok (s'.bodies.length, body) = .ok (t'.bodies.length, body)
          rw [hnext.bodies]
        · show s'.bodies ++ _ = t'.bodies ++ _
          rw [hnext.bodies]

end Lockstep

end Synthesizer

/-! ### Reports -/

structure Exploration.Lockstep (R : Hierarchy → Hierarchy → Prop) (asked : Lookup → Prop)
    (x y : Exploration) : Prop where
  graph : x.graph = y.graph
  synthesizer : Synthesizer.Lockstep R x.synthesizer y.synthesizer
  asked : ∀ l : Lookup, l.node ∈ x.graph.nodes → asked l

namespace Analysis

open Exploration (Lockstep)

variable {x y x' : Exploration} {e : Edge}

theorem report_lockstep (hR : Hierarchy.Answering R asked) (hxy : Lockstep R asked x y)
    {call : Option ReportedCall} (hx : report x e = .ok (call, x')) :
    ∃ y', report y e = .ok (call, y') ∧ Lockstep R asked x' y' := by
  obtain ⟨hgraph, hst, hasked⟩ := hxy
  unfold report at hx ⊢
  cases hn : x.graph.node? e.callee with
  | none =>
    rw [Exploration.body_unknown x hn] at hx
    exact nomatch hx
  | some n =>
    have hn' : y.graph.node? e.callee = some n := hgraph ▸ hn
    cases hl : n.modeled? with
    | none =>
      rw [Exploration.body_unmodeled hn hl] at hx
      rw [Exploration.body_unmodeled hn' hl]
      obtain ⟨rfl, rfl⟩ := Prod.mk.inj (Except.ok.inj hx)
      exact ⟨y, rfl, hgraph, hst, hasked⟩
    | some l =>
      have hnode : ∀ k, n.modeled? = some k → asked k := by
        intro k hk
        have hmem := CallGraph.mem_of_node? hn
        rw [Node.modeled?_eq_some_iff.1 hk] at hmem
        exact hasked k hmem
      rw [Exploration.body_modeled hn hl] at hx
      rw [Exploration.body_modeled hn' hl]
      obtain ⟨hresult, hnext⟩ := hst.body hR hnode
      rw [← hresult]
      cases hb : (x.synthesizer.body n).1 with
      | error f =>
        rw [hb] at hx
        exact nomatch hx
      | ok made =>
        rw [hb] at hx
        obtain ⟨bodyId, body⟩ := made
        dsimp only [Except.map, Except.mapError] at hx ⊢
        rw [← hgraph]
        split at hx
        · exact nomatch hx
        · exact nomatch hx
        · obtain ⟨rfl, rfl⟩ := Prod.mk.inj (Except.ok.inj hx)
          exact ⟨_, rfl, rfl, hnext, hasked⟩

theorem reportAll_lockstep (hR : Hierarchy.Answering R asked) (edges : List Edge) :
    ∀ {x y x' : Exploration} {calls : List ReportedCall}, Lockstep R asked x y →
      reportAll x edges = .ok (calls, x') →
        ∃ y', reportAll y edges = .ok (calls, y') ∧ Lockstep R asked x' y' := by
  induction edges with
  | nil =>
    intro x y x' calls hxy hx
    obtain ⟨rfl, rfl⟩ := Prod.mk.inj (Except.ok.inj hx)
    exact ⟨y, rfl, hxy⟩
  | cons e rest ih =>
    intro x y x' calls hxy hx
    obtain ⟨call, z, later, he, hrest, rfl⟩ := reportAll_cons_iff.1 hx
    obtain ⟨w, hw, hzw⟩ := report_lockstep hR hxy he
    obtain ⟨y', hy', hlast⟩ := ih hzw hrest
    exact ⟨y', reportAll_cons_iff.2 ⟨call, w, later, hw, hy', rfl⟩, hlast⟩

/-- Programs whose calls lead to the same nodes have one analysis, if their hierarchies answer the
lookups alike to which calls lead. -/
theorem run_of_lockstep (hR : Hierarchy.Answering R asked) {classes others : List Class}
    (hstart : R (.ofClasses classes) (.ofClasses others))
    (hcount : (targets (.ofClasses classes)).length = (targets (.ofClasses others)).length)
    (hadded : (Hierarchy.ofClasses classes).added = (Hierarchy.ofClasses others).added)
    (hlinks : (Hierarchy.ofClasses classes).links = (Hierarchy.ofClasses others).links)
    (hasked : ∀ l : Lookup, l.node ∈ (Hierarchy.ofClasses classes).added → asked l) :
    run classes = run others := by
  have htraced := explored_traced (.ofClasses classes)
  have htraced' := explored_traced (.ofClasses others)
  rw [← hadded, ← hlinks] at htraced'
  have hgraph := htraced.graph_eq htraced'
  have hlock : Lockstep R asked (explored (.ofClasses classes)) (explored (.ofClasses others)) := by
    refine ⟨hgraph, ?_, fun l hl => hasked l (htraced.lists.mem_of_mem hl)⟩
    rw [htraced.synthesizer, htraced'.synthesizer]
    exact .ofHierarchy hstart
  have hx := (explored_ok (h := .ofClasses classes) rfl).2
  obtain ⟨calls, x', hok, _⟩ := reportAll_ok (exploredEdges (.ofClasses classes)) _ hx hx.linked
  obtain ⟨y', hok', hlast⟩ := reportAll_lockstep hR _ hlock hok
  have hedges : exploredEdges (.ofClasses classes) = exploredEdges (.ofClasses others) := by
    rw [exploredEdges, exploredEdges, hgraph]
  have hstandIns : x'.synthesizer.standInCount = y'.synthesizer.standInCount :=
    congrArg List.length hlast.synthesizer.standIns
  rw [run_eq, run_eq, hok, ← hedges, hok']
  show Except.ok (outcome _ (calls, x')) = .ok (outcome _ (calls, y'))
  rw [outcome, outcome, hcount, hedges, hlast.graph, hlast.synthesizer.warnings, hstandIns]

end Analysis

end AnnotationGraph
