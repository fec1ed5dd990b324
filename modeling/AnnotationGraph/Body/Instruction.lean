import AnnotationGraph.Program.Reference

/-!
# Instructions

The instructions of a made-up method body.  Values are numbers, and an instruction defines one value
at most.  Numbers and indices are unbounded here; those in the bodies of a run are less than the
number of constants and four (`Synthesizer.body_within`), so 32 bits are enough for bodies with fewer
than `2 ^ 32 - 4` constants.
-/

namespace AnnotationGraph

structure AllocationSite where
  index : Nat
  type : ClassName
  deriving DecidableEq

inductive Action where
  | new (result : Nat) (site : AllocationSite)
  | put (object value : Nat) (field : FieldRef)
  /-- leaves the method, with a value or without -/
  | leave (value : Option Nat)
  deriving DecidableEq

/-- An instruction with the index by which it is known. -/
structure Instruction where
  index : Nat
  action : Action
  deriving DecidableEq

namespace Instruction

def defined? (i : Instruction) : Option Nat :=
  match i.action with
  | .new result _ => some result
  | .put .. | .leave _ => none

/-- The values that an instruction reads, in the order of its operands. -/
def used (i : Instruction) : List Nat :=
  match i.action with
  | .new .. => []
  | .put object value _ => [object, value]
  | .leave value => value.toList

def isExit (i : Instruction) : Bool :=
  match i.action with
  | .leave _ => true
  | .new .. | .put .. => false

end Instruction

end AnnotationGraph
