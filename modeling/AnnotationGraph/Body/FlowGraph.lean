import AnnotationGraph.Body.Instruction
import AnnotationGraph.Data.OrderedMap

/-!
# Flow graphs

Instructions without branches fall into blocks.  A block begins at the first instruction and after
each that leaves the method, and ends where the next one begins.

* `Block`, `FlowGraph` — the types; positions are those in the list of instructions;
* `FlowGraph.leaders` — where blocks begin;
* `FlowGraph.ofInstructions` — the flow graph of a list of instructions.
-/

namespace AnnotationGraph

structure Block where
  start : Nat
  stop : Nat
  instructions : List Instruction
  deriving DecidableEq

def Block.isExit (b : Block) : Bool := b.instructions.getLast?.any Instruction.isExit

/-- Blocks, and the starts of two blocks where one goes on to the other. -/
structure FlowGraph where
  blocks : List Block
  edges : List (Nat × Nat)
  deriving DecidableEq

namespace FlowGraph

/-- The positions after the instructions that leave the method, the first of which has a position. -/
def afterExits (start : Nat) (instructions : List Instruction) : List Nat :=
  ((instructions.zipIdx start).filter (·.1.isExit)).map (·.2 + 1)

def leaders (instructions : List Instruction) : List Nat :=
  (OrderedSet.ofList (0 :: afterExits 0 instructions)).keys.filter (· < instructions.length)

def blocksAt (instructions : List Instruction) : List Nat → List Block
  | [] => []
  | start :: rest =>
    let stop := rest.headD instructions.length
    ⟨start, stop, instructions.extract start stop⟩ :: blocksAt instructions rest

/-- The start of the block to which a block goes on: the one that begins where it stops, unless it
leaves the method. -/
def next? (blocks : List Block) (b : Block) : Option Nat :=
  if b.isExit then none else (blocks.find? (·.start = b.stop)).map Block.start

def ofInstructions (instructions : List Instruction) : FlowGraph :=
  let blocks := blocksAt instructions (leaders instructions)
  ⟨blocks, blocks.filterMap fun b => (next? blocks b).map fun next => (b.start, next)⟩

def exits (g : FlowGraph) : List Block := g.blocks.filter Block.isExit

end FlowGraph

end AnnotationGraph
