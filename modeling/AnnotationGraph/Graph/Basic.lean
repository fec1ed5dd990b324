import AnnotationGraph.Data.OrderedMap
import AnnotationGraph.Graph.Context

/-!
# Call graphs

A node is a method under a context.  Nodes are numbered as they come, and a node that differs from
an older one in nothing but the annotation sought is that older node.  The number of a node is found
by going through the nodes: these are only ever added and no two are alike, so an index from nodes to
their numbers would hold nothing that the list does not, and there is none.

* `Node`, `Edge`, `CallGraph` — the types;
* `CallGraph.addNode`, `CallGraph.addEdge` — how a graph grows.
-/

namespace AnnotationGraph

structure Node where
  method : MethodRef
  context : Context
  deriving DecidableEq

namespace Node

/-- What tells two nodes apart. -/
def identity (n : Node) : MethodRef × Option Abstraction := (n.method, n.context.identity)

def text (n : Node) : String := "Node: " ++ n.method.text ++ " Context: " ++ n.context.text

end Node

structure Edge where
  caller : Nat
  offset : UInt32
  callee : Nat
  deriving DecidableEq

namespace Edge

/-- Edges are ordered by caller, then offset, then callee. -/
instance : Ord Edge where
  compare := compareLex (compareOn caller) (compareLex (compareOn offset) (compareOn callee))

instance : Std.TransOrd Edge :=
  inferInstanceAs (Std.TransCmp
    (compareLex (compareOn caller) (compareLex (compareOn offset) (compareOn callee))))

instance : Std.LawfulEqOrd Edge where
  compare_self := Std.ReflCmp.compare_self
  eq_of_compare {a b} h := by
    have h : (compare a.caller b.caller).then
        ((compare a.offset b.offset).then (compare a.callee b.callee)) = .eq := h
    simp only [Ordering.then_eq_eq] at h
    obtain ⟨caller, offset, callee⟩ := a
    obtain ⟨h₁, h₂, h₃⟩ := h
    cases Std.LawfulEqCmp.eq_of_compare h₁
    cases Std.LawfulEqCmp.eq_of_compare h₂
    cases Std.LawfulEqCmp.eq_of_compare h₃
    rfl

end Edge

/-- Nodes in the order in which they came, no two alike, and the calls between them. -/
structure CallGraph where
  nodes : List Node
  edges : OrderedSet Edge
  distinct : (nodes.map Node.identity).Nodup

namespace CallGraph

def empty : CallGraph := ⟨[], .empty, .nil⟩

def node? (g : CallGraph) (id : Nat) : Option Node := g.nodes[id]?

def size (g : CallGraph) : Nat := g.nodes.length

def find? (g : CallGraph) (n : Node) : Option Nat :=
  g.nodes.findIdx? (·.identity = n.identity)

theorem nodup_append {g : CallGraph} {n : Node} (h : g.find? n = none) :
    ((g.nodes ++ [n]).map Node.identity).Nodup := by
  have hn : ∀ m ∈ g.nodes, m.identity ≠ n.identity := by
    simpa [find?, List.findIdx?_eq_none_iff] using h
  rw [List.map_append, List.nodup_append]
  refine ⟨g.distinct, by simp, ?_⟩
  intro a ha b hb
  obtain ⟨m, hm, rfl⟩ := List.mem_map.1 ha
  obtain rfl : b = n.identity := by simpa using hb
  exact hn m hm

/-- The number of a node, which is added unless the graph has one like it. -/
def addNode (g : CallGraph) (n : Node) : Nat × CallGraph :=
  match h : g.find? n with
  | some id => (id, g)
  | none => (g.size, ⟨g.nodes ++ [n], g.edges, nodup_append h⟩)

def addEdge (g : CallGraph) (e : Edge) : CallGraph := { g with edges := g.edges.add e }

end CallGraph

end AnnotationGraph
