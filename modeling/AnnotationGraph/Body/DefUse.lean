import AnnotationGraph.Body.Instruction
import AnnotationGraph.Data.OrderedMap

/-!
# Definitions and uses

Where the values of a list of instructions are defined and read, collected in one pass.  Positions
are those in the list, whatever the indices of the instructions.
-/

namespace AnnotationGraph

/-- For each value the position that defines it and those that read it. -/
structure DefUse where
  definitions : OrderedMap Nat Nat
  uses : OrderedMap Nat (List Nat)
  deriving DecidableEq

namespace DefUse

def definition? (d : DefUse) (value : Nat) : Option Nat := d.definitions.get? value

def usesOf (d : DefUse) (value : Nat) : List Nat := (d.uses.get? value).getD []

def useCount (d : DefUse) (value : Nat) : Nat := (d.usesOf value).length

def addUse (position : Nat) (d : DefUse) (value : Nat) : DefUse :=
  let known := d.usesOf value
  let positions := if known.contains position then known else known ++ [position]
  { d with uses := d.uses.insert value positions }

def add (position : Nat) (d : DefUse) (i : Instruction) : DefUse :=
  let defined :=
    match i.defined? with
    | some value => { d with definitions := d.definitions.insert value position }
    | none => d
  i.used.foldl (addUse position) defined

def addFrom (position : Nat) (d : DefUse) : List Instruction → DefUse
  | [] => d
  | i :: rest => addFrom (position + 1) (d.add position i) rest

def ofInstructions (instructions : List Instruction) : DefUse :=
  addFrom 0 ⟨.empty, .empty⟩ instructions

end DefUse

end AnnotationGraph
