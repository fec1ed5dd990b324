import AnnotationGraph.Graph.Basic
import AnnotationGraph.Proofs.Maps
import Mathlib.Data.List.Nodup

/-!
# How a call graph grows

Nodes keep their numbers, a node that is added is found under its own, and of all nodes that are
alike the graph has the one that was added first.

* `find?_eq_some_iff`      which number a node is found under;
* `find?_addNode_self`     a node that was added is found;
* `prefix_addNode`         older nodes keep their numbers;
* `CallGraph.Lists`        the graph has the first node of each kind in a list;
* `CallGraph.Numbers`      it numbers the kinds in the order in which they come first.
-/

namespace AnnotationGraph.CallGraph

variable {g g' : CallGraph} {n m : Node} {id : Nat}

theorem eq_of_nodes (hnodes : g.nodes = g'.nodes) (hedges : g.edges = g'.edges) : g = g' := by
  cases g
  cases g'
  cases hnodes
  cases hedges
  rfl

/-! ### Numbers of nodes -/

theorem lt_size_of_node? (h : g.node? id = some n) : id < g.size :=
  (List.getElem?_eq_some_iff.1 h).1

theorem exists_node? (h : id < g.size) : ∃ n, g.node? id = some n :=
  ⟨g.nodes[id], List.getElem?_eq_getElem h⟩

theorem node?_eq_none_iff : g.node? id = none ↔ g.size ≤ id := List.getElem?_eq_none_iff

theorem mem_of_node? (h : g.node? id = some n) : n ∈ g.nodes := List.mem_of_getElem? h

theorem find?_eq_some_iff :
    g.find? n = some id ↔ ∃ m, g.node? id = some m ∧ m.identity = n.identity := by
  unfold find? node?
  rw [List.findIdx?_eq_some_iff_getElem]
  constructor
  · rintro ⟨hid, hlike, _⟩
    exact ⟨g.nodes[id], List.getElem?_eq_getElem hid, of_decide_eq_true hlike⟩
  · rintro ⟨m, hm, hlike⟩
    obtain ⟨hid, rfl⟩ := List.getElem?_eq_some_iff.1 hm
    refine ⟨hid, decide_eq_true hlike, ?_⟩
    intro j hj hj'
    have hdistinct := List.pairwise_iff_getElem.1 g.distinct j id
      (by rw [List.length_map]; omega) (by rw [List.length_map]; omega) hj
    rw [List.getElem_map, List.getElem_map, hlike] at hdistinct
    exact hdistinct (of_decide_eq_true hj')

theorem find?_of_node? (h : g.node? id = some n) : g.find? n = some id :=
  find?_eq_some_iff.2 ⟨n, h, rfl⟩

theorem identity_of_find? (hn : g.find? n = some id) (hm : g.find? m = some id) :
    n.identity = m.identity := by
  obtain ⟨k, hk, hlike⟩ := find?_eq_some_iff.1 hn
  obtain ⟨k', hk', hlike'⟩ := find?_eq_some_iff.1 hm
  rw [← hlike, ← hlike', Option.some.inj (hk.symm.trans hk')]

/-! ### Adding a node -/

theorem addNode_of_some (h : g.find? n = some id) : g.addNode n = (id, g) := by
  unfold addNode
  split
  next id' h' => rw [Option.some.inj (h'.symm.trans h)]
  next h' => exact absurd (h'.symm.trans h) (by simp)

theorem addNode_of_none (h : g.find? n = none) :
    g.addNode n = (g.size, ⟨g.nodes ++ [n], g.edges, nodup_append h⟩) := by
  unfold addNode
  split
  next id' h' => exact absurd (h'.symm.trans h) (by simp)
  next => rfl

theorem prefix_addNode (g : CallGraph) (n : Node) : g.nodes <+: (g.addNode n).2.nodes := by
  cases h : g.find? n with
  | some id =>
    rewrite [addNode_of_some h]
    exact List.prefix_refl _
  | none =>
    rw [addNode_of_none h]
    exact List.prefix_append _ _

@[simp] theorem edges_addNode (g : CallGraph) (n : Node) : (g.addNode n).2.edges = g.edges := by
  cases h : g.find? n with
  | some id => rw [addNode_of_some h]
  | none => rw [addNode_of_none h]

theorem mem_addNode (h : m ∈ (g.addNode n).2.nodes) : m ∈ g.nodes ∨ m = n := by
  cases hfind : g.find? n with
  | some id =>
    rw [addNode_of_some hfind] at h
    exact .inl h
  | none =>
    rw [addNode_of_none hfind] at h
    rcases List.mem_append.1 h with h | h
    · exact .inl h
    · exact .inr (List.mem_singleton.1 h)

theorem find?_addNode_self (g : CallGraph) (n : Node) :
    (g.addNode n).2.find? n = some (g.addNode n).1 := by
  cases h : g.find? n with
  | some id =>
    rw [addNode_of_some h]
    exact h
  | none =>
    rw [addNode_of_none h]
    exact find?_eq_some_iff.2 ⟨n, List.getElem?_concat_length, rfl⟩

theorem node?_of_prefix (hp : g.nodes <+: g'.nodes) (h : g.node? id = some n) :
    g'.node? id = some n := by
  obtain ⟨later, hlater⟩ := hp
  unfold node?
  rw [← hlater, List.getElem?_append_left (lt_size_of_node? h)]
  exact h

theorem find?_of_prefix (hp : g.nodes <+: g'.nodes) (h : g.find? n = some id) :
    g'.find? n = some id := by
  obtain ⟨m, hm, hlike⟩ := find?_eq_some_iff.1 h
  exact find?_eq_some_iff.2 ⟨m, node?_of_prefix hp hm, hlike⟩

theorem lt_size_of_find? (h : g.find? n = some id) : id < g.size := by
  obtain ⟨m, hm, _⟩ := find?_eq_some_iff.1 h
  exact lt_size_of_node? hm

theorem addNode_lt (g : CallGraph) (n : Node) : (g.addNode n).1 < (g.addNode n).2.size :=
  lt_size_of_find? (find?_addNode_self g n)

theorem size_le_addNode (g : CallGraph) (n : Node) : g.size ≤ (g.addNode n).2.size :=
  (prefix_addNode g n).length_le

/-! ### The first nodes of each kind -/

/-- Of the nodes in a list the graph has the first of each kind, and no others. -/
def Lists (g : CallGraph) (added : List Node) : Prop :=
  ∀ n : Node, g.nodes.find? (·.identity = n.identity) = added.find? (·.identity = n.identity)

theorem lists_empty : empty.Lists [] := fun _ => rfl

theorem Lists.addNode {added : List Node} (h : g.Lists added) (n : Node) :
    (g.addNode n).2.Lists (added ++ [n]) := by
  intro m
  rw [List.find?_append, ← h m]
  cases hfind : g.find? n with
  | some id =>
    rw [addNode_of_some hfind]
    obtain ⟨rep, hrep, hlike⟩ := find?_eq_some_iff.1 hfind
    by_cases hm : n.identity = m.identity
    · -- one that is like the new node is there already
      have hsome : (g.nodes.find? (·.identity = m.identity)).isSome := by
        rw [List.find?_isSome]
        exact ⟨rep, mem_of_node? hrep, decide_eq_true (hlike.trans hm)⟩
      obtain ⟨first, hfirst⟩ := Option.isSome_iff_exists.1 hsome
      rw [hfirst]
      rfl
    · have hnot : [n].find? (·.identity = m.identity) = none := by simp [hm]
      rw [hnot, Option.or_none]
  | none =>
    rw [addNode_of_none hfind]
    exact List.find?_append

theorem Lists.first_of_node? {added : List Node} (h : g.Lists added) (hn : g.node? id = some n) :
    added.find? (·.identity = n.identity) = some n := by
  rw [← h n]
  have hfind := find?_of_node? hn
  unfold find? at hfind
  obtain ⟨hid, hlike, hold⟩ := List.findIdx?_eq_some_iff_getElem.1 hfind
  rw [List.find?_eq_some_iff_getElem]
  have hget : g.nodes[id] = n := Option.some.inj ((List.getElem?_eq_getElem hid).symm.trans hn)
  refine ⟨decide_eq_true rfl, id, hid, hget, ?_⟩
  intro j hj
  have hj' := hold j hj
  rw [Bool.not_eq_true] at hj'
  rw [hj']
  rfl

theorem Lists.mem_of_mem {added : List Node} (h : g.Lists added) (hn : n ∈ g.nodes) : n ∈ added := by
  obtain ⟨id, hid⟩ := List.getElem?_of_mem hn
  exact List.mem_of_find?_eq_some (h.first_of_node? hid)

theorem Lists.exists_find? {added : List Node} (h : g.Lists added) (hn : n ∈ added) :
    ∃ id, g.find? n = some id := by
  have hsome : (added.find? (·.identity = n.identity)).isSome := by
    rw [List.find?_isSome]
    exact ⟨n, hn, decide_eq_true rfl⟩
  rw [← h n, List.find?_isSome] at hsome
  obtain ⟨m, hm, hlike⟩ := hsome
  obtain ⟨id, hid⟩ := List.getElem?_of_mem hm
  exact ⟨id, find?_eq_some_iff.2 ⟨m, hid, of_decide_eq_true hlike⟩⟩

/-! ### The order of the kinds -/

/-- The kinds of the nodes are those in a list, numbered in the order in which they come first. -/
def Numbers (g : CallGraph) (added : List Node) : Prop :=
  g.nodes.map Node.identity = (added.map Node.identity).eraseDups

theorem eraseDups_concat {α : Type} [BEq α] [LawfulBEq α] (l : List α) (a : α) :
    (l ++ [a]).eraseDups = if a ∈ l then l.eraseDups else l.eraseDups ++ [a] := by
  rw [List.eraseDups_append]
  by_cases ha : a ∈ l <;> simp [List.removeAll, List.eraseDups_cons, ha]

theorem Numbers.addNode {added : List Node} (h : g.Numbers added) (n : Node) :
    (g.addNode n).2.Numbers (added ++ [n]) := by
  have hmem : n.identity ∈ added.map Node.identity ↔ ∃ id, g.find? n = some id := by
    rw [← List.mem_eraseDups, ← h, List.mem_map]
    constructor
    · rintro ⟨m, hm, hlike⟩
      obtain ⟨id, hid⟩ := List.getElem?_of_mem hm
      exact ⟨id, find?_eq_some_iff.2 ⟨m, hid, hlike⟩⟩
    · rintro ⟨id, hid⟩
      obtain ⟨m, hm, hlike⟩ := find?_eq_some_iff.1 hid
      exact ⟨m, mem_of_node? hm, hlike⟩
  unfold Numbers at h ⊢
  rw [List.map_append, List.map_singleton, eraseDups_concat]
  cases hfind : g.find? n with
  | some id =>
    rw [addNode_of_some hfind, if_pos (hmem.2 ⟨id, hfind⟩), h]
  | none =>
    have hnot : n.identity ∉ added.map Node.identity := by
      rw [hmem]
      exact fun ⟨id, hid⟩ => nomatch hid.symm.trans hfind
    rw [addNode_of_none hfind, if_neg hnot, List.map_append, h]
    rfl

theorem Numbers.idxOf {added : List Node} (h : g.Numbers added) (hn : g.find? n = some id) :
    (added.map Node.identity).eraseDups.idxOf n.identity = id := by
  obtain ⟨m, hm, hlike⟩ := find?_eq_some_iff.1 hn
  obtain ⟨hid, rfl⟩ := List.getElem?_eq_some_iff.1 hm
  have hid' : id < (g.nodes.map Node.identity).length := by rwa [List.length_map]
  rw [← h, ← hlike, ← List.getElem_map Node.identity (h := hid')]
  exact g.distinct.idxOf_getElem id hid'

end AnnotationGraph.CallGraph
