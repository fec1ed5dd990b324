import AnnotationGraph.Proofs.Analysis

/-!
# What the walk over the classes leaves behind

While calls are followed no class is made up, so where a call leads does not depend on when it is
followed.  The walk is a list of nodes to add and a list of links between them, both read off the
program, and the graph is the one with the first node of each kind and with an edge for each link.

* `Link`, `Hierarchy.added`, `Hierarchy.links`   the two lists of a program;
* `Traced`                                       what an exploration has of two such lists;
* `Traced.graph_eq`                              the two lists determine the graph;
* `Traced.enter`, `Traced.follow`                what one step adds;
* `explored_traced`                              what the whole walk has added.
-/

namespace AnnotationGraph

/-- A call that leads from a method to a node. -/
structure Link where
  caller : MethodRef
  offset : UInt32
  callee : Node

/-- The node from which the calls of a method are followed. -/
def MethodRef.entry (m : MethodRef) : Node := ⟨m, .everywhere⟩

namespace Hierarchy

def addedBy (h : Hierarchy) (c : Class) (m : Method) : List Node :=
  (c.methodRef m).entry :: m.calls.flatMap fun call => (h.target? call).toList

def link? (h : Hierarchy) (caller : MethodRef) (call : Call) : Option Link :=
  (h.target? call).map fun n => ⟨caller, call.offset, n⟩

def linksBy (h : Hierarchy) (c : Class) (m : Method) : List Link :=
  m.calls.flatMap fun call => (h.link? (c.methodRef m) call).toList

def added (h : Hierarchy) : List Node :=
  (Analysis.targets h).flatMap fun c => c.methods.flatMap (h.addedBy c)

def links (h : Hierarchy) : List Link :=
  (Analysis.targets h).flatMap fun c => c.methods.flatMap (h.linksBy c)

end Hierarchy

/-- A graph has an edge exactly for each of several links. -/
def CallGraph.Joins (g : CallGraph) (links : List Link) : Prop :=
  ∀ e, e ∈ g.edges.keys ↔ ∃ l ∈ links, g.find? l.caller.entry = some e.caller ∧
    l.offset = e.offset ∧ g.find? l.callee = some e.callee

/-- What an exploration has after nodes and links were added and nothing else was done. -/
structure Traced (h : Hierarchy) (x : Exploration) (added : List Node) (links : List Link) :
    Prop where
  selector : x.selector = .standard
  synthesizer : x.synthesizer = .ofHierarchy h
  lists : x.graph.Lists added
  numbers : x.graph.Numbers added
  ends : ∀ l ∈ links, l.caller.entry ∈ added ∧ l.callee ∈ added
  joins : x.graph.Joins links

namespace Traced

variable {h : Hierarchy} {x : Exploration} {nodes : List Node} {links : List Link}

theorem start (h : Hierarchy) : Traced h (.start .standard h) [] [] where
  selector := rfl
  synthesizer := rfl
  lists := CallGraph.lists_empty
  numbers := rfl
  ends l hl := absurd hl (by simp)
  joins e := ⟨fun he => (nomatch he), fun ⟨_, hl, _⟩ => absurd hl (by simp)⟩

theorem joins_addNode (hx : Traced h x nodes links) (n : Node) :
    (x.graph.addNode n).2.Joins links := by
  have hsame : ∀ l ∈ nodes, ∀ id, (x.graph.addNode n).2.find? l = some id ↔
      x.graph.find? l = some id := by
    intro l hl id
    obtain ⟨id', hid'⟩ := hx.lists.exists_find? hl
    have hlater := CallGraph.find?_of_prefix (CallGraph.prefix_addNode x.graph n) hid'
    rw [hlater, hid']
  intro e
  rw [CallGraph.edges_addNode, hx.joins e]
  constructor
  · rintro ⟨l, hl, hcaller, hoffset, hcallee⟩
    obtain ⟨h1, h2⟩ := hx.ends l hl
    exact ⟨l, hl, (hsame _ h1 _).2 hcaller, hoffset, (hsame _ h2 _).2 hcallee⟩
  · rintro ⟨l, hl, hcaller, hoffset, hcallee⟩
    obtain ⟨h1, h2⟩ := hx.ends l hl
    exact ⟨l, hl, (hsame _ h1 _).1 hcaller, hoffset, (hsame _ h2 _).1 hcallee⟩

theorem addNode (hx : Traced h x nodes links) (n : Node) :
    Traced h { x with graph := (x.graph.addNode n).2 } (nodes ++ [n]) links where
  selector := hx.selector
  synthesizer := hx.synthesizer
  lists := hx.lists.addNode n
  numbers := hx.numbers.addNode n
  ends l hl := ⟨List.mem_append_left _ (hx.ends l hl).1, List.mem_append_left _ (hx.ends l hl).2⟩
  joins := hx.joins_addNode n

theorem addEdge (hx : Traced h x nodes links) {l : Link} {caller callee : Nat}
    (hcaller : x.graph.find? l.caller.entry = some caller)
    (hcallee : x.graph.find? l.callee = some callee)
    (hends : l.caller.entry ∈ nodes ∧ l.callee ∈ nodes) :
    Traced h { x with graph := x.graph.addEdge ⟨caller, l.offset, callee⟩ } nodes
      (links ++ [l]) where
  selector := hx.selector
  synthesizer := hx.synthesizer
  lists := hx.lists
  numbers := hx.numbers
  ends k hk := by
    rcases List.mem_append.1 hk with hk | hk
    · exact hx.ends k hk
    · rw [List.mem_singleton.1 hk]
      exact hends
  joins e := by
    show e ∈ (x.graph.edges.add ⟨caller, l.offset, callee⟩).keys ↔ _
    rw [OrderedSet.mem_keys_add, hx.joins e]
    constructor
    · rintro (rfl | ⟨k, hk, hjoin⟩)
      · exact ⟨l, List.mem_append_right _ (List.mem_singleton_self l), hcaller, rfl, hcallee⟩
      · exact ⟨k, List.mem_append_left _ hk, hjoin⟩
    · rintro ⟨k, hk, h1, h2, h3⟩
      rcases List.mem_append.1 hk with hk | hk
      · exact .inr ⟨k, hk, h1, h2, h3⟩
      · rw [List.mem_singleton.1 hk] at h1 h2 h3
        change x.graph.find? l.caller.entry = _ at h1
        change x.graph.find? l.callee = _ at h3
        refine .inl ?_
        rw [Option.some.inj (hcaller.symm.trans h1), Option.some.inj (hcallee.symm.trans h3), h2]

theorem graph_eq {k : Hierarchy} {y : Exploration} (hx : Traced h x nodes links)
    (hy : Traced k y nodes links) : x.graph = y.graph := by
  have hkinds : x.graph.nodes.map Node.identity = y.graph.nodes.map Node.identity :=
    Eq.trans hx.numbers hy.numbers.symm
  have hnodes : x.graph.nodes = y.graph.nodes := by
    apply List.ext_getElem
    · simpa using congrArg List.length hkinds
    · intro id hid hid'
      have hkind : x.graph.nodes[id].identity = y.graph.nodes[id].identity := by
        have hget := congrArg (fun l => l[id]?) hkinds
        simpa [hid, hid'] using hget
      have hfirst := hx.lists.first_of_node? (List.getElem?_eq_getElem hid)
      have hfirst' := hy.lists.first_of_node? (List.getElem?_eq_getElem hid')
      rw [hkind, hfirst'] at hfirst
      exact (Option.some.inj hfirst).symm
  have hfind : ∀ n, x.graph.find? n = y.graph.find? n := by
    intro n
    rw [CallGraph.find?, CallGraph.find?, hnodes]
  apply CallGraph.eq_of_nodes hnodes
  apply OrderedSet.eq_of_mem_keys
  intro e
  rw [hx.joins e, hy.joins e]
  simp only [hfind]

/-! ### Steps of the walk -/

theorem enter (hx : Traced h x nodes links) (m : MethodRef) :
    Traced h (x.enter m).2 (nodes ++ [m.entry]) links ∧
      (x.enter m).2.graph.find? m.entry = some (x.enter m).1 :=
  ⟨hx.addNode m.entry, CallGraph.find?_addNode_self x.graph m.entry⟩

/-- Following a call of a method that was entered adds the target and the link of the call, and the
method keeps its number. -/
theorem follow (hx : Traced h x nodes links) {m : MethodRef} {caller : Nat}
    (hm : x.graph.find? m.entry = some caller) (hmem : m.entry ∈ nodes) (call : Call) :
    Traced h (x.step (.follow caller call)) (nodes ++ (h.target? call).toList)
        (links ++ (h.link? m call).toList) ∧
      (x.step (.follow caller call)).graph.find? m.entry = some caller := by
  obtain ⟨node, hnode⟩ := CallGraph.exists_node? (CallGraph.lt_size_of_find? hm)
  have hfollow := Exploration.follow_standard hx.selector hnode call
  have hhierarchy : x.hierarchy = h := by
    rw [Exploration.hierarchy, hx.synthesizer]
    rfl
  rw [hhierarchy] at hfollow
  unfold Hierarchy.link?
  cases hn : h.target? call with
  | none =>
    rw [hn] at hfollow
    rw [Exploration.step_follow_ok hfollow]
    show Traced h x (nodes ++ []) (links ++ []) ∧ _
    rw [List.append_nil, List.append_nil]
    exact ⟨hx, hm⟩
  | some n =>
    rw [hn] at hfollow
    rw [Exploration.step_follow_ok hfollow]
    have hkept := CallGraph.find?_of_prefix (CallGraph.prefix_addNode x.graph n) hm
    refine ⟨(hx.addNode n).addEdge (l := ⟨m, call.offset, n⟩) hkept ?_ ⟨?_, ?_⟩, hkept⟩
    · exact CallGraph.find?_addNode_self x.graph n
    · exact List.mem_append_left _ hmem
    · exact List.mem_append_right _ (List.mem_singleton_self n)

/-! ### The whole walk -/

theorem foldl {α : Type} {R : Exploration → List Node → List Link → Prop}
    {f : Exploration → α → Exploration} {p : α → List Node} {q : α → List Link}
    (hf : ∀ x nodes links a, R x nodes links → R (f x a) (nodes ++ p a) (links ++ q a))
    (items : List α) : ∀ x nodes links, R x nodes links →
      R (items.foldl f x) (nodes ++ items.flatMap p) (links ++ items.flatMap q) := by
  induction items with
  | nil =>
    intro x nodes links hx
    rw [List.flatMap_nil, List.flatMap_nil, List.append_nil, List.append_nil]
    exact hx
  | cons a rest ih =>
    intro x nodes links hx
    have hrest := ih _ _ _ (hf x nodes links a hx)
    rw [List.append_assoc, List.append_assoc] at hrest
    rw [List.flatMap_cons, List.flatMap_cons]
    exact hrest

theorem visitMethod (hx : Traced h x nodes links) (c : Class) (m : Method) :
    Traced h (Analysis.visitMethod c x m) (nodes ++ h.addedBy c m) (links ++ h.linksBy c m) := by
  obtain ⟨hentered, hfound⟩ := hx.enter (c.methodRef m)
  have hcalls := foldl
    (R := fun y nodes links => Traced h y nodes links ∧
      y.graph.find? (c.methodRef m).entry = some (x.enter (c.methodRef m)).1 ∧
      (c.methodRef m).entry ∈ nodes)
    (fun y nodes links call ⟨hy, hfind, hmem⟩ =>
      have hnext := hy.follow hfind hmem call
      ⟨hnext.1, hnext.2, List.mem_append_left _ hmem⟩)
    m.calls _ _ _ ⟨hentered, hfound, List.mem_append_right _ (List.mem_singleton_self _)⟩
  rw [List.append_assoc] at hcalls
  exact hcalls.1

theorem visitClass (hx : Traced h x nodes links) (c : Class) :
    Traced h (Analysis.visitClass x c) (nodes ++ c.methods.flatMap (h.addedBy c))
      (links ++ c.methods.flatMap (h.linksBy c)) :=
  foldl (fun _ _ _ m hy => hy.visitMethod c m) c.methods x nodes links hx

end Traced

/-- After the walk over the classes the graph is that of the nodes and links of the program. -/
theorem explored_traced (h : Hierarchy) :
    Traced h (Analysis.explored h) h.added h.links :=
  Traced.foldl (fun _ _ _ c hy => hy.visitClass c) (Analysis.targets h) _ _ _ (Traced.start h)

end AnnotationGraph
