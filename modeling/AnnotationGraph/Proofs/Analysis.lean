import AnnotationGraph.Analysis
import AnnotationGraph.Proofs.Exploration
import Mathlib.Data.List.Forall2

/-!
# No analysis fails

What an analysis does is a walk over the analyzed classes and then a walk over the edges, and no step
of either fails.

* `Analysis.explored`        the exploration after the walk over the classes;
* `Analysis.Reports`         what the report of an edge says;
* `reportAll_ok`             the edges to nodes with bodies are reported one after the other;
* `run_eq`                   an analysis is the walk over the edges of what was explored;
* `run_aligned`              it reports the edges to nodes with bodies, and nothing else;
* `Exploration.Safe`         which steps of an exploration fail and which change nothing;
* `Exploration.run_safe`     explorations are safe, and no analysis fails.
-/

namespace AnnotationGraph

theorem foldlM_ok {σ α ε : Type} {f : σ → α → Except ε σ} {g : σ → α → σ} (P : σ → Prop)
    (hf : ∀ s a, P s → f s a = .ok (g s a) ∧ P (g s a)) (l : List α) :
    ∀ s, P s → l.foldlM f s = .ok (l.foldl g s) ∧ P (l.foldl g s) := by
  induction l with
  | nil => exact fun s hs => ⟨rfl, hs⟩
  | cons a rest ih =>
    intro s hs
    obtain ⟨hok, hnext⟩ := hf s a hs
    rw [List.foldlM_cons, hok]
    exact ih _ hnext

theorem forall₂_mem_right {α β : Type} {R : α → β → Prop} {as : List α} {bs : List β}
    (h : List.Forall₂ R as bs) {b : β} (hb : b ∈ bs) : ∃ a ∈ as, R a b := by
  induction h with
  | nil => exact nomatch hb
  | cons hab _ ih =>
    rcases List.mem_cons.1 hb with rfl | hb
    · exact ⟨_, List.mem_cons_self, hab⟩
    · obtain ⟨a, ha, hab⟩ := ih hb
      exact ⟨a, List.mem_cons_of_mem _ ha, hab⟩

theorem forall₂_mem_left {α β : Type} {R : α → β → Prop} {as : List α} {bs : List β}
    (h : List.Forall₂ R as bs) {a : α} (ha : a ∈ as) : ∃ b ∈ bs, R a b :=
  forall₂_mem_right (R := flip R) h.flip ha

def CallGraph.lookupAt? (g : CallGraph) (e : Edge) : Option Lookup :=
  (g.node? e.callee).bind Node.modeled?

theorem CallGraph.lookupAt?_eq_some_iff {g : CallGraph} {e : Edge} {l : Lookup} :
    g.lookupAt? e = some l ↔ g.node? e.callee = some l.node := by
  unfold lookupAt?
  rw [Option.bind_eq_some_iff]
  constructor
  · rintro ⟨n, hn, hl⟩
    rw [← Node.modeled?_eq_some_iff.1 hl]
    exact hn
  · exact fun hn => ⟨_, hn, Node.modeled?_node l⟩

namespace Analysis

open Exploration (Sound)

variable {h : Hierarchy} {x : Exploration}

/-! ### The walk over the classes -/

def visitMethod (c : Class) (x : Exploration) (m : Method) : Exploration :=
  m.calls.foldl (fun y call => y.step (.follow (x.enter (c.methodRef m)).1 call))
    (x.enter (c.methodRef m)).2

def visitClass (x : Exploration) (c : Class) : Exploration := c.methods.foldl (visitMethod c) x

def targets (h : Hierarchy) : List Class := h.program.toList.filter Class.analyzed

/-- The exploration after all calls inside the analyzed classes were followed. -/
def explored (h : Hierarchy) : Exploration := (targets h).foldl visitClass (.start .standard h)

theorem followCalls_ok {caller : Nat} (hx : Sound h x) (hc : caller < x.graph.size)
    (calls : List Call) :
    followCalls caller x calls = .ok (calls.foldl (fun y call => y.step (.follow caller call)) x) ∧
      Sound h (calls.foldl (fun y call => y.step (.follow caller call)) x) := by
  have hstep : ∀ y call, Sound h y ∧ caller < y.graph.size →
      (y.follow caller call).map Prod.snd = .ok (y.step (.follow caller call)) ∧
        Sound h (y.step (.follow caller call)) ∧
        caller < (y.step (.follow caller call)).graph.size := by
    rintro y call ⟨hy, hcy⟩
    obtain ⟨callee, z, hok, hz, hnodes, _⟩ := hy.follow hcy call
    rw [Exploration.step_follow_ok hok, hok]
    exact ⟨rfl, hz, Nat.lt_of_lt_of_le hcy hnodes.length_le⟩
  obtain ⟨hok, hsound, _⟩ := foldlM_ok _ hstep calls x ⟨hx, hc⟩
  exact ⟨hok, hsound⟩

theorem followMethod_ok (c : Class) (hx : Sound h x) (m : Method) :
    followMethod c x m = .ok (visitMethod c x m) ∧ Sound h (visitMethod c x m) :=
  followCalls_ok (hx.enter (c.methodRef m)) (CallGraph.addNode_lt _ _) m.calls

theorem followClass_ok (hx : Sound h x) (c : Class) :
    followClass x c = .ok (visitClass x c) ∧ Sound h (visitClass x c) :=
  foldlM_ok (Sound h) (fun _ m hy => followMethod_ok c hy m) c.methods x hx

theorem explored_ok (fresh : h.standIns = .empty) :
    (targets h).foldlM followClass (.start .standard h) = .ok (explored h) ∧ Sound h (explored h) :=
  foldlM_ok (Sound h) (fun _ c hy => followClass_ok hy c) (targets h) _ (Exploration.sound_start fresh)

/-! ### The walk over the edges -/

/-- What the report of an edge says: the caller and the offset, and the lookup for which the body of
the callee was made, which has the same key as the callee's. -/
structure Reports (g : CallGraph) (e : Edge) (l k : Lookup) (r : ReportedCall) : Prop where
  caller : ∃ n, g.node? e.caller = some n ∧ r.caller = n.method
  offset : r.offset = e.offset
  callee : g.node? e.callee = some l.node
  made : k.node ∈ g.nodes
  alike : l.node.bodyKey l = k.node.bodyKey k
  subject : r.subject = k.subject
  sought : r.sought = k.sought

theorem report_ok (hx : Sound h x) {e : Edge}
    (he : e.caller < x.graph.size ∧ e.callee < x.graph.size) :
    ∃ call y, report x e = .ok (call, y) ∧ Sound h y ∧ y.graph = x.graph ∧
      (call = none ∧ x.graph.lookupAt? e = none ∨
        ∃ l k r, call = some r ∧ Reports x.graph e l k r) := by
  obtain ⟨caller, hcaller⟩ := CallGraph.exists_node? he.1
  obtain ⟨callee, hcallee⟩ := CallGraph.exists_node? he.2
  unfold report
  rcases hx.body hcallee with ⟨hnone, hbody⟩ | ⟨l, k, bodyId, body, hl, hok, hnext, hgraph, hk, hcontext, hkey⟩
  · rw [hbody]
    refine ⟨none, x, rfl, hx, rfl, .inl ⟨rfl, ?_⟩⟩
    rw [CallGraph.lookupAt?, hcallee]
    exact hnone
  · cases hb : x.body e.callee with
    | mk result y =>
      rw [hb] at hok hnext hgraph
      change result = _ at hok
      change y.graph = _ at hgraph
      subst hok
      refine ⟨some ⟨caller.method, e.offset, k.subject, k.sought, bodyId, body⟩, y, ?_, hnext, hgraph,
        .inr ⟨l, k, _, rfl, ⟨caller, hcaller, rfl⟩, rfl, hl ▸ hcallee, hk, hkey, rfl, rfl⟩⟩
      dsimp only
      rw [hgraph, hcaller, hcontext]
      rfl

theorem reportAll_cons_iff {x z : Exploration} {e : Edge} {rest : List Edge}
    {calls : List ReportedCall} :
    reportAll x (e :: rest) = .ok (calls, z) ↔ ∃ call y later, report x e = .ok (call, y) ∧
      reportAll y rest = .ok (later, z) ∧ calls = call.toList ++ later := by
  show (report x e >>= fun p => reportAll p.2 rest >>= fun q =>
    Except.ok (p.1.toList ++ q.1, q.2)) = _ ↔ _
  constructor
  · intro hr
    cases he : report x e with
    | error err => exact nomatch he ▸ hr
    | ok p =>
      rw [he] at hr
      change (reportAll p.2 rest >>= fun q => Except.ok (p.1.toList ++ q.1, q.2)) = _ at hr
      cases hrest : reportAll p.2 rest with
      | error err => exact nomatch hrest ▸ hr
      | ok q =>
        rw [hrest] at hr
        obtain ⟨rfl, rfl⟩ := Prod.mk.inj (Except.ok.inj hr)
        exact ⟨p.1, p.2, q.1, rfl, hrest, rfl⟩
  · rintro ⟨call, y, later, he, hrest, rfl⟩
    rw [he]
    show (reportAll y rest >>= fun q => Except.ok (call.toList ++ q.1, q.2)) = _
    rw [hrest]
    rfl

theorem reportAll_ok (edges : List Edge) :
    ∀ x, Sound h x → (∀ e ∈ edges, e.caller < x.graph.size ∧ e.callee < x.graph.size) →
      ∃ calls y, reportAll x edges = .ok (calls, y) ∧
        List.Forall₂ (fun e r => ∃ l k, Reports x.graph e l k r)
          (edges.filter fun e => (x.graph.lookupAt? e).isSome) calls := by
  induction edges with
  | nil => exact fun x _ _ => ⟨[], x, rfl, .nil⟩
  | cons e rest ih =>
    intro x hx hedges
    obtain ⟨call, y, hok, hy, hgraph, hcall⟩ := report_ok hx (hedges e List.mem_cons_self)
    have hrest : ∀ e ∈ rest, e.caller < y.graph.size ∧ e.callee < y.graph.size := by
      rw [hgraph]
      exact fun e he => hedges e (List.mem_cons_of_mem _ he)
    obtain ⟨calls, z, hoks, haligned⟩ := ih y hy hrest
    rw [hgraph] at haligned
    refine ⟨call.toList ++ calls, z, reportAll_cons_iff.2 ⟨call, y, calls, hok, hoks, rfl⟩, ?_⟩
    rcases hcall with ⟨rfl, hnone⟩ | ⟨l, k, r, rfl, hreports⟩
    · rw [List.filter_cons_of_neg (by simp [hnone])]
      exact haligned
    · have hleads := CallGraph.lookupAt?_eq_some_iff.2 hreports.callee
      rw [List.filter_cons_of_pos (by simp [hleads])]
      exact .cons ⟨l, k, hreports⟩ haligned

/-! ### The whole analysis -/

def exploredEdges (h : Hierarchy) : List Edge := (explored h).graph.edges.keys

def lookupEdges (h : Hierarchy) : List Edge :=
  (exploredEdges h).filter fun e => ((explored h).graph.lookupAt? e).isSome

theorem mem_lookupEdges_iff {e : Edge} : e ∈ lookupEdges h ↔
    e ∈ exploredEdges h ∧ ∃ l : Lookup, (explored h).graph.node? e.callee = some l.node := by
  unfold lookupEdges
  rw [List.mem_filter, Option.isSome_iff_exists]
  simp only [CallGraph.lookupAt?_eq_some_iff]

def outcome (h : Hierarchy) (reported : List ReportedCall × Exploration) : Analysis where
  calls := reported.1
  classCount := (targets h).length
  nodeCount := reported.2.graph.size
  edgeCount := (exploredEdges h).length
  standInCount := reported.2.synthesizer.standInCount
  warnings := reported.2.synthesizer.warnings

theorem run_eq (classes : List Class) :
    run classes = (reportAll (explored (.ofClasses classes)) (exploredEdges (.ofClasses classes))).map
      (outcome (.ofClasses classes)) := by
  have fresh : (Hierarchy.ofClasses classes).standIns = .empty := rfl
  unfold run
  generalize Hierarchy.ofClasses classes = h at fresh ⊢
  show (((targets h).foldlM followClass (.start .standard h)).mapError Error.step >>= fun x =>
    reportAll x x.graph.edges.keys >>= fun p => Except.ok (⟨p.1, (targets h).length, p.2.graph.size,
      x.graph.edges.keys.length, p.2.synthesizer.standInCount, p.2.synthesizer.warnings⟩ : Analysis))
      = _
  rw [(explored_ok fresh).1]
  show (reportAll (explored h) (exploredEdges h) >>= fun p => Except.ok (outcome h p)) = _
  cases reportAll (explored h) (exploredEdges h) <;> rfl

/-- An analysis reports the edges to nodes with bodies, one after the other. -/
theorem run_aligned (classes : List Class) :
    ∃ result, run classes = .ok result ∧
      List.Forall₂ (fun e r => ∃ l k, Reports (explored (.ofClasses classes)).graph e l k r)
        (lookupEdges (.ofClasses classes)) result.calls := by
  have hx := (explored_ok (h := .ofClasses classes) rfl).2
  obtain ⟨calls, y, hok, haligned⟩ := reportAll_ok (exploredEdges (.ofClasses classes)) _ hx hx.linked
  exact ⟨outcome _ (calls, y), by rw [run_eq, hok]; rfl, haligned⟩

end Analysis

/-! ### Safety -/

namespace Exploration

/-- Which steps fail, which requests are answered with a body, and that all other requests and all
calls that lead nowhere change nothing. -/
structure Safe (x : Exploration) : Prop where
  follow_fails : ∀ caller call e,
    x.follow caller call = .error e ↔ x.graph.size ≤ caller ∧ e = .unknownCaller caller
  body_fails : ∀ id e, (x.body id).1 = .error e ↔ x.graph.size ≤ id ∧ e = .unknownNode id
  body_given : ∀ id, (∃ made, (x.body id).1 = .ok (some made)) ↔ ∃ n l, x.graph.node? id = some n ∧
    n.method = Operation.onClass.method ∧ n.context = .lookup l
  follow_frame : ∀ caller call,
    (∀ callee y, x.follow caller call ≠ .ok (some callee, y)) → x.step (.follow caller call) = x
  body_frame : ∀ id, (∀ made, (x.body id).1 ≠ .ok (some made)) → x.step (.body id) = x

variable {h : Hierarchy} {x : Exploration}

theorem Sound.body_ok (hx : Sound h x) {id : Nat} (hid : id < x.graph.size) :
    ∃ made?, (x.body id).1 = .ok made? := by
  obtain ⟨n, hn⟩ := CallGraph.exists_node? hid
  rcases hx.body hn with ⟨_, hbody⟩ | ⟨_, _, bodyId, made, _, hbody, _⟩
  · exact ⟨none, by rw [hbody]⟩
  · exact ⟨some (bodyId, made), hbody⟩

theorem Sound.safe (hx : Sound h x) : Safe x where
  follow_fails caller call e := by
    by_cases hc : caller < x.graph.size
    · obtain ⟨callee, y, hok, _⟩ := hx.follow hc call
      rw [hok]
      exact ⟨fun herr => (nomatch herr), fun hle => absurd hle.1 (Nat.not_le_of_lt hc)⟩
    · have hle := Nat.le_of_not_lt hc
      rw [follow_unknown x (CallGraph.node?_eq_none_iff.2 hle)]
      exact ⟨fun herr => ⟨hle, (Except.error.inj herr).symm⟩, fun herr => by rw [herr.2]⟩
  body_fails id e := by
    by_cases hid : id < x.graph.size
    · obtain ⟨made?, hok⟩ := hx.body_ok hid
      rw [hok]
      exact ⟨fun herr => (nomatch herr), fun hle => absurd hle.1 (Nat.not_le_of_lt hid)⟩
    · have hle := Nat.le_of_not_lt hid
      rw [body_unknown x (CallGraph.node?_eq_none_iff.2 hle)]
      exact ⟨fun herr => ⟨hle, (Except.error.inj herr).symm⟩, fun herr => by rw [herr.2]⟩
  body_given id := by
    cases hn : x.graph.node? id with
    | none =>
      rw [body_unknown x hn]
      exact ⟨fun ⟨_, hok⟩ => (nomatch hok), fun ⟨_, _, hsome, _⟩ => (nomatch hsome)⟩
    | some n =>
      rcases hx.body hn with ⟨hnone, hbody⟩ | ⟨l, _, bodyId, made, hl, hbody, _⟩
      · rw [hbody]
        refine ⟨fun ⟨_, hok⟩ => (nomatch hok), ?_⟩
        rintro ⟨m, l, hm, hmethod, hcontext⟩
        have hnode : n = l.node := by
          rw [Option.some.inj hm, Lookup.node, ← hmethod, ← hcontext]
        rw [hnode, Node.modeled?_node] at hnone
        exact nomatch hnone
      · rw [hbody]
        exact ⟨fun _ => ⟨n, l, rfl, by rw [hl]; rfl, by rw [hl]; rfl⟩, fun _ => ⟨_, rfl⟩⟩
  follow_frame caller call hnot := by
    by_cases hc : caller < x.graph.size
    · obtain ⟨callee, y, hok, _, _, hsame⟩ := hx.follow hc call
      rw [step_follow_ok hok]
      cases callee with
      | none => exact hsame rfl
      | some id => exact absurd hok (hnot id y)
    · have hnone := CallGraph.node?_eq_none_iff.2 (Nat.le_of_not_lt hc)
      exact step_follow_error (follow_unknown x hnone call)
  body_frame id hnot := by
    show (x.body id).2 = x
    cases hn : x.graph.node? id with
    | none => rw [body_unknown x hn]
    | some n =>
      rcases hx.body hn with ⟨_, hbody⟩ | ⟨_, _, bodyId, made, _, hbody, _⟩
      · rw [hbody]
      · exact absurd hbody (hnot (bodyId, made))

/-- **Explorations are safe, and no analysis fails.**  Over the hierarchy of any program, in whatever
order methods are entered, calls are followed and bodies are asked for, steps fail for unknown nodes
alone, bodies are given exactly for lookups on class objects, and what fails or gives nothing changes
nothing. -/
theorem run_safe (classes : List Class) :
    (∀ moves, ((start .standard (.ofClasses classes)).run moves).Safe) ∧
      ∃ result, Analysis.run classes = .ok result := by
  refine ⟨fun moves => ?_, ?_⟩
  · have hx : Sound (.ofClasses classes) (start .standard (.ofClasses classes)) := sound_start rfl
    exact (hx.run moves).safe
  · obtain ⟨result, hok, _⟩ := Analysis.run_aligned classes
    exact ⟨result, hok⟩

end Exploration

end AnnotationGraph
