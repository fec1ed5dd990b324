import AnnotationGraph.Proofs.Graph

/-!
# Call graphs and what was added to them

Nodes and edges are added to a call graph in any order.  The numbers that were given out tell which
nodes are alike, the node of a number is the one for which it was given out first, and the edges are
those that were added.

* `CallGraph.Addition`, `CallGraph.extend`   what is added to a graph, and the graph after it;
* `CallGraph.calls`                          the nodes that were added, with the numbers they got;
* `CallGraph.Recorded`                       what the numbers given out say of a graph;
* `CallGraph.Recorded.extend`                whatever is added keeps that;
* `CallGraph.extend_records`                 the graph is what was added to it.
-/

namespace AnnotationGraph

/-- Contexts that count as one: any call, or lookups on one object, whatever annotations they seek. -/
def Context.Same : Context → Context → Prop
  | .everywhere, .everywhere => True
  | .lookup l, .lookup k => l.subject = k.subject
  | .everywhere, .lookup _ | .lookup _, .everywhere => False

theorem Context.identity_eq_iff {c d : Context} : c.identity = d.identity ↔ c.Same d := by
  cases c with
  | everywhere =>
    cases d with
    | everywhere => exact iff_of_true rfl trivial
    | lookup k => exact iff_of_false (fun h => nomatch h) id
  | lookup l =>
    cases d with
    | everywhere => exact iff_of_false (fun h => nomatch h) id
    | lookup k => exact ⟨Option.some.inj, congrArg some⟩

theorem Node.alike_iff {n m : Node} :
    n.identity = m.identity ↔ n.method = m.method ∧ n.context.Same m.context := by
  unfold Node.identity
  rw [Prod.mk.injEq, Context.identity_eq_iff]

/-- An edge comes before another: by its caller, then its offset, then its callee. -/
def Edge.Before (a b : Edge) : Prop :=
  a.caller < b.caller ∨ a.caller = b.caller ∧
    (a.offset < b.offset ∨ a.offset = b.offset ∧ a.callee < b.callee)

theorem Edge.before_of_compare {a b : Edge} (h : compare a b = .lt) : a.Before b := by
  have h : (compare a.caller b.caller).then
      ((compare a.offset b.offset).then (compare a.callee b.callee)) = .lt := h
  rw [Ordering.then_eq_lt, Ordering.then_eq_lt, Std.compare_eq_lt, Std.compare_eq_lt,
    Std.compare_eq_lt, Std.compare_eq_iff_eq, Std.compare_eq_iff_eq] at h
  exact h

theorem Edge.Before.ne {a b : Edge} (h : a.Before b) : a ≠ b := by
  rintro rfl
  rcases h with h | ⟨_, h | ⟨_, h⟩⟩
  · exact Nat.lt_irrefl _ h
  · exact UInt32.lt_irrefl _ h
  · exact Nat.lt_irrefl _ h

namespace CallGraph

inductive Addition where
  | node (n : Node)
  | edge (e : Edge)

def add (g : CallGraph) : Addition → CallGraph
  | .node n => (g.addNode n).2
  | .edge e => g.addEdge e

def extend (g : CallGraph) (additions : List Addition) : CallGraph := additions.foldl add g

/-- The nodes among several additions, each with the number that was given for it. -/
def calls (g : CallGraph) : List Addition → List (Node × Nat)
  | [] => []
  | .node n :: rest => (n, (g.addNode n).1) :: calls (g.addNode n).2 rest
  | .edge e :: rest => calls (g.addEdge e) rest

/-- The nodes that were added to a graph, with the numbers that they got. -/
structure Recorded (g : CallGraph) (calls : List (Node × Nat)) : Prop where
  /-- the numbers come up in ascending order, without a gap -/
  numbers : (calls.map Prod.snd).eraseDups = List.range g.size
  found : ∀ c ∈ calls, g.find? c.1 = some c.2
  first : ∀ id, g.node? id = (calls.find? (·.2 = id)).map Prod.fst

variable {g : CallGraph} {calls : List (Node × Nat)} {n : Node} {id : Nat}

/-! ### One addition -/

theorem node?_addNode (g : CallGraph) (n : Node) (id : Nat) :
    (g.addNode n).2.node? id = (g.node? id).or (if (g.addNode n).1 = id then some n else none) := by
  cases hfind : g.find? n with
  | some old =>
    rw [addNode_of_some hfind]
    by_cases hid : old = id
    · obtain ⟨m, hm⟩ := exists_node? (hid ▸ lt_size_of_find? hfind)
      rw [hm, Option.some_or]
    · rw [if_neg hid, Option.or_none]
  | none =>
    rw [addNode_of_none hfind]
    by_cases hid : id < g.size
    · obtain ⟨m, hm⟩ := exists_node? hid
      rw [hm, Option.some_or]
      exact node?_of_prefix (List.prefix_append _ _) hm
    · have hid := Nat.le_of_not_lt hid
      have hplace : id - g.nodes.length = 0 ↔ g.size = id := by
        rw [Nat.sub_eq_zero_iff_le]
        exact ⟨hid.antisymm, fun h => h.ge⟩
      rw [node?_eq_none_iff.2 hid, Option.none_or, node?, List.getElem?_append_right hid,
        List.getElem?_singleton]
      simp only [hplace]

theorem recorded_empty : empty.Recorded [] := ⟨rfl, nofun, fun _ => rfl⟩

theorem Recorded.mem_numbers (h : g.Recorded calls) : id ∈ calls.map Prod.snd ↔ id < g.size := by
  rw [← List.mem_eraseDups, h.numbers, List.mem_range]

theorem Recorded.addNode (h : g.Recorded calls) (n : Node) :
    (g.addNode n).2.Recorded (calls ++ [(n, (g.addNode n).1)]) where
  numbers := by
    rw [List.map_append, List.map_singleton, eraseDups_concat, h.numbers]
    cases hfind : g.find? n with
    | some id =>
      rw [addNode_of_some hfind]
      exact if_pos (h.mem_numbers.2 (lt_size_of_find? hfind))
    | none =>
      rw [addNode_of_none hfind]
      have hnew : g.size ∉ calls.map Prod.snd := fun hmem => lt_irrefl _ (h.mem_numbers.1 hmem)
      rw [if_neg hnew, ← List.range_succ]
      change _ = List.range (g.nodes ++ [n]).length
      rw [List.length_append]
      rfl
  found := by
    intro c hc
    rcases List.mem_append.1 hc with hc | hc
    · exact find?_of_prefix (prefix_addNode g n) (h.found c hc)
    · rw [List.mem_singleton.1 hc]
      exact find?_addNode_self g n
  first := by
    intro id
    rw [node?_addNode, h.first, List.find?_append, Option.map_or, List.find?_singleton]
    by_cases hid : (g.addNode n).1 = id
    · rw [if_pos hid, if_pos (decide_eq_true hid), Option.map_some]
    · rw [if_neg hid, if_neg fun h => hid (of_decide_eq_true h), Option.map_none]

theorem Recorded.addEdge (h : g.Recorded calls) (e : Edge) : (g.addEdge e).Recorded calls :=
  ⟨h.numbers, h.found, h.first⟩

theorem Recorded.eq_iff (h : g.Recorded calls) {c d : Node × Nat} (hc : c ∈ calls) (hd : d ∈ calls) :
    c.2 = d.2 ↔ c.1.identity = d.1.identity := by
  constructor
  · intro hid
    exact identity_of_find? (h.found c hc) (hid ▸ h.found d hd)
  · intro hlike
    obtain ⟨m, hm, hmc⟩ := find?_eq_some_iff.1 (h.found c hc)
    have hd' := find?_eq_some_iff.2 ⟨m, hm, hmc.trans hlike⟩
    exact Option.some.inj (hd'.symm.trans (h.found d hd))

/-! ### Several additions -/

theorem Recorded.extend (additions : List Addition) :
    ∀ {g : CallGraph} {calls : List (Node × Nat)}, g.Recorded calls →
      (g.extend additions).Recorded (calls ++ g.calls additions) := by
  induction additions with
  | nil =>
    intro g calls h
    rw [CallGraph.calls, List.append_nil]
    exact h
  | cons a rest ih =>
    intro g calls h
    cases a with
    | node n =>
      have hrest := ih (h.addNode n)
      rw [List.append_assoc, List.singleton_append] at hrest
      exact hrest
    | edge e => exact ih (h.addEdge e)

theorem prefix_add (g : CallGraph) (a : Addition) : g.nodes <+: (g.add a).nodes := by
  cases a with
  | node n => exact prefix_addNode g n
  | edge e => exact List.prefix_refl _

theorem prefix_extend (additions : List Addition) :
    ∀ g : CallGraph, g.nodes <+: (g.extend additions).nodes := by
  induction additions with
  | nil => exact fun g => List.prefix_refl _
  | cons a rest ih => exact fun g => (prefix_add g a).trans (ih (g.add a))

theorem extend_append (g : CallGraph) (additions later : List Addition) :
    g.extend (additions ++ later) = (g.extend additions).extend later := List.foldl_append

theorem mem_edges_add {e : Edge} {a : Addition} :
    e ∈ (g.add a).edges.keys ↔ a = .edge e ∨ e ∈ g.edges.keys := by
  cases a with
  | node n =>
    rw [add, edges_addNode]
    exact ⟨.inr, fun h => h.resolve_left (fun h => nomatch h)⟩
  | edge d =>
    rw [add, addEdge, OrderedSet.mem_keys_add, Addition.edge.injEq, eq_comm]

theorem mem_edges_extend {e : Edge} (additions : List Addition) :
    ∀ g : CallGraph, e ∈ (g.extend additions).edges.keys ↔
      .edge e ∈ additions ∨ e ∈ g.edges.keys := by
  induction additions with
  | nil => exact fun g => ⟨.inr, fun h => h.resolve_left (fun h => nomatch h)⟩
  | cons a rest ih =>
    intro g
    have hrest := ih (g.add a)
    rw [mem_edges_add] at hrest
    rw [extend, List.foldl_cons, ← extend, hrest, List.mem_cons, or_left_comm, or_assoc, eq_comm]

theorem edges_ascending (g : CallGraph) : g.edges.keys.Pairwise Edge.Before := by
  rw [OrderedMap.keys, List.pairwise_map]
  exact g.edges.ascending.imp Edge.before_of_compare

/-- A graph that grew from the empty one tells what was added to it.  Numbers are given out in
ascending order; two nodes get one number just when they are of one method under contexts that count
as one; the node of a number is, and stays, the first one that got it; and the edges are those that
were added, in ascending order and each once. -/
theorem extend_records (additions : List Addition) :
    ((empty.calls additions).map Prod.snd).eraseDups = List.range (empty.extend additions).size ∧
    (∀ c ∈ empty.calls additions, ∀ d ∈ empty.calls additions,
      c.2 = d.2 ↔ c.1.method = d.1.method ∧ c.1.context.Same d.1.context) ∧
    (∀ id, (empty.extend additions).node? id =
      ((empty.calls additions).find? (·.2 = id)).map Prod.fst) ∧
    (∀ id n, (empty.extend additions).node? id = some n →
      ∀ later, (empty.extend (additions ++ later)).node? id = some n) ∧
    (empty.extend additions).edges.keys.Pairwise Edge.Before ∧
    (empty.extend additions).edges.keys.Nodup ∧
    ∀ e, e ∈ (empty.extend additions).edges.keys ↔ .edge e ∈ additions := by
  have hrecorded := recorded_empty.extend additions
  rw [List.nil_append] at hrecorded
  have hedges := edges_ascending (empty.extend additions)
  refine ⟨hrecorded.numbers, ?_, hrecorded.first, ?_, hedges, hedges.imp Edge.Before.ne, ?_⟩
  · intro c hc d hd
    rw [hrecorded.eq_iff hc hd, Node.alike_iff]
  · intro id n hn later
    rw [extend_append]
    exact node?_of_prefix (prefix_extend later _) hn
  · intro e
    rw [mem_edges_extend]
    exact ⟨fun h => h.resolve_right (fun h => nomatch h), .inl⟩

end CallGraph

end AnnotationGraph
