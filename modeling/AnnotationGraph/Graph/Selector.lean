import AnnotationGraph.Graph.Basic
import AnnotationGraph.Hierarchy

/-!
# Choosing contexts

A selector chooses the context under which the callee of a call is analyzed.  It is built from rules
that may decline; of several rules the first that does not decline decides.

* `Query` — a call with what is known of its arguments;
* `Rule` — a way to choose, and the arguments that it looks at;
* `Selector` — rules in a tree;
* `Query.masked` — a query without the arguments that no rule looks at.
-/

namespace AnnotationGraph

structure Query where
  caller : Node
  call : Call
  callee : MethodRef
  arguments : List ObjectKey
  deriving DecidableEq

/-- Forgets the arguments outside a set of slots. -/
def Query.masked (q : Query) (slots : OrderedSet Nat) : Query :=
  { q with arguments := q.arguments.mapIdx fun slot key =>
      if slots.contains slot then key else .unknown }

structure Rule where
  /-- the context of a call, unless the rule declines -/
  context? : Hierarchy → Query → Option Context
  /-- the argument slots that the rule looks at -/
  slots : Hierarchy → Node → Call → OrderedSet Nat

namespace Rule

def fixed (context : Option Context) (slots : OrderedSet Nat) : Rule where
  context? _ _ := context
  slots _ _ _ := slots

def everywhere : Rule := fixed (some .everywhere) .empty

end Rule

inductive Selector where
  | rule (r : Rule)
  /-- asks the second only if the first declines -/
  | orElse (first second : Selector)

namespace Selector

def rules : Selector → List Rule
  | .rule r => [r]
  | .orElse first second => first.rules ++ second.rules

def context? (h : Hierarchy) (q : Query) : Selector → Option Context
  | .rule r => r.context? h q
  | .orElse first second => first.context? h q <|> second.context? h q

def slots (h : Hierarchy) (caller : Node) (call : Call) : Selector → OrderedSet Nat
  | .rule r => r.slots h caller call
  | .orElse first second => (first.slots h caller call).union (second.slots h caller call)

/-- The number of rules that are asked about a call: those that decline and the one that decides. -/
def asked (h : Hierarchy) (q : Query) (s : Selector) : Nat :=
  let declining := (s.rules.takeWhile fun r => (r.context? h q).isNone).length
  min s.rules.length (declining + 1)

end Selector

end AnnotationGraph
