import AnnotationGraph.Lookup.Selection
import AnnotationGraph.Lookup.Synthesizer

/-!
# Exploring a program

A call graph grows as calls are followed: each call adds the node of its callee, under the context
that the selector chooses, and an edge to it.

* `Exploration` — a call graph in the making;
* `Exploration.enter`, `Exploration.follow` — how nodes and edges come about;
* `Exploration.body` — the body of a node, if it is one for which bodies are made.
-/

namespace AnnotationGraph

structure Exploration where
  selector : Selector
  synthesizer : Synthesizer
  graph : CallGraph

namespace Exploration

inductive Error where
  | unknownCaller (id : Nat)
  | unknownNode (id : Nat)
  | fault (f : Fault)
  deriving DecidableEq

def Error.message : Error → String
  | .unknownCaller id => "unknown caller node NodeId(" ++ toString id ++ ")"
  | .unknownNode id => "unknown node NodeId(" ++ toString id ++ ")"
  | .fault f => f.message

def start (selector : Selector) (h : Hierarchy) : Exploration := ⟨selector, .ofHierarchy h, .empty⟩

def hierarchy (x : Exploration) : Hierarchy := x.synthesizer.hierarchy

def enter (x : Exploration) (m : MethodRef) : Nat × Exploration :=
  let (id, graph) := x.graph.addNode ⟨m, .everywhere⟩
  (id, { x with graph })

/-- What the selector is asked about a call that resolves: arguments that it does not look at are
left out. -/
def query? (x : Exploration) (caller : Node) (call : Call) : Option Query := do
  let callee ← x.hierarchy.resolve? call.target
  let query : Query := ⟨caller, call, callee, call.arguments⟩
  return query.masked (x.selector.slots x.hierarchy caller call)

/-- Follows a call and gives the number of the callee's node, or none if the call does not
resolve. -/
def follow (x : Exploration) (caller : Nat) (call : Call) :
    Except Error (Option Nat × Exploration) :=
  match x.graph.node? caller with
  | none => .error (.unknownCaller caller)
  | some node =>
    match x.query? node call with
    | none => .ok (none, x)
    | some query =>
      let context := (x.selector.context? x.hierarchy query).getD .everywhere
      let (callee, graph) := x.graph.addNode ⟨query.callee, context⟩
      .ok (some callee, { x with graph := graph.addEdge ⟨caller, call.offset, callee⟩ })

/-- The body of a node and its number, or none if no bodies are made for such nodes. -/
def body (x : Exploration) (id : Nat) : Except Error (Option (Nat × Body)) × Exploration :=
  match x.graph.node? id with
  | none => (.error (.unknownNode id), x)
  | some node =>
    if node.modeled?.isSome then
      let (result, synthesizer) := x.synthesizer.body node
      ((result.map some).mapError .fault, { x with synthesizer })
    else (.ok none, x)

end Exploration

end AnnotationGraph
