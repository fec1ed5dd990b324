import AnnotationGraph.Body.DefUse
import AnnotationGraph.Body.FlowGraph
import AnnotationGraph.Graph.Context

/-!
# Method bodies

A body made up for a method under a context: its instructions with their flow graph, and the texts of
the constants they read.
-/

namespace AnnotationGraph

/-- Instructions with the flow graph that they induce. -/
structure Code where
  instructions : List Instruction
  flow : FlowGraph
  induced : flow = .ofInstructions instructions
  deriving DecidableEq

def Code.ofInstructions (instructions : List Instruction) : Code :=
  ⟨instructions, .ofInstructions instructions, rfl⟩

instance : Coe (List Instruction) Code := ⟨.ofInstructions⟩

structure Body where
  method : MethodRef
  context : Context
  code : Code
  /-- the rendered constants, by their value numbers -/
  constants : OrderedMap Nat String
  deriving DecidableEq

namespace Body

def instructions (b : Body) : List Instruction := b.code.instructions

def flow (b : Body) : FlowGraph := b.code.flow

theorem flow_eq (b : Body) : b.flow = .ofInstructions b.instructions := b.code.induced

def empty (method : MethodRef) (context : Context) : Body :=
  ⟨method, context, .ofInstructions [], .empty⟩

def constant? (b : Body) (value : Nat) : Option String := b.constants.get? value

def defUse (b : Body) : DefUse := .ofInstructions b.instructions

end Body

end AnnotationGraph
