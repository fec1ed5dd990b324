import AnnotationGraph.Graph.Selector

/-!
# The rule for annotation lookups

A call that resolves to a lookup method gets a context of its own if the object asked and the
annotation sought are known before the program runs.
-/

namespace AnnotationGraph

def Hierarchy.operation? (h : Hierarchy) (call : Call) : Option Operation :=
  (h.resolve? call.target).bind Operation.of?

/-- What a lookup method knows of the object it is called on. -/
def Operation.subject? (op : Operation) (key : ObjectKey) : Option Abstraction :=
  match op with
  | .onClass => key.class?.map .point
  | .onConstructor => key.constructor?.map .member
  | .onMethod => key.method?.map .member
  | .onField | .onParameter => none

namespace Rule

def lookupSlots : OrderedSet Nat := .ofList [0, 1]

/-- The rule for calls of lookup methods. -/
def lookups : Rule where
  context? h q := do
    let op ← h.operation? q.call
    guard op.hasContext
    let subject ← q.arguments[0]?
    let sought ← (← q.arguments[1]?).class?
    return .lookup ⟨← op.subject? subject, .point sought⟩
  slots h _ call := if (h.operation? call).isSome then lookupSlots else .empty

end Rule

def Selector.standard : Selector := .orElse (.rule .lookups) (.rule .everywhere)

end AnnotationGraph
