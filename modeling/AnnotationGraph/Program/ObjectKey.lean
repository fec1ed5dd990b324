import AnnotationGraph.Program.Reference

/-!
# Objects that flow into calls

What is known of an argument of a call: that it is one particular object, that it was allocated at a
site of the program, or nothing.
-/

namespace AnnotationGraph

/-- A single object known before the program runs. -/
inductive KnownObject where
  | classObject (name : ClassName)
  | constructor (target : MethodRef)
  | method (target : MethodRef)
  | field (target : FieldRef)
  | parameter (declaring : MethodRef) (index : UInt32)
  deriving DecidableEq

inductive ObjectKey where
  | known (object : KnownObject)
  | allocated (type : ClassName) (index : UInt32)
  | unknown
  deriving DecidableEq

namespace ObjectKey

def class? : ObjectKey → Option ClassName
  | .known (.classObject name) => some name
  | _ => none

def constructor? : ObjectKey → Option MethodRef
  | .known (.constructor target) => some target
  | _ => none

def method? : ObjectKey → Option MethodRef
  | .known (.method target) => some target
  | _ => none

end ObjectKey

end AnnotationGraph
