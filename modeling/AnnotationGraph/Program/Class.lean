import AnnotationGraph.Program.Element
import AnnotationGraph.Program.ObjectKey

/-!
# Classes

The classes of a program with their annotations, fields and methods, and the calls inside methods.
-/

namespace AnnotationGraph

inductive Dispatch where
  | virtual
  | interface
  | special
  | static
  deriving DecidableEq

/-- A call inside a method, with what is known of its arguments; slot 0 is the receiver. -/
structure Call where
  owner : ClassName
  name : String
  descriptor : String
  dispatch : Dispatch
  offset : UInt32
  arguments : List ObjectKey
  deriving DecidableEq

def Call.target (c : Call) : MethodRef := ⟨c.owner, c.name, c.descriptor⟩

structure Access where
  isPublic : Bool
  isStatic : Bool
  isAbstract : Bool
  deriving DecidableEq

structure Method where
  name : String
  descriptor : String
  access : Access
  calls : List Call
  deriving DecidableEq

structure Field where
  name : String
  type : ClassName
  deriving DecidableEq

structure Class where
  name : ClassName
  superName : Option ClassName
  interfaces : List ClassName
  annotations : List AnnotationUse
  fields : List Field
  methods : List Method
  /-- whether the calls inside its methods are analyzed -/
  analyzed : Bool

namespace Class

/-- The first method with a name and a descriptor. -/
def method? (c : Class) (name descriptor : String) : Option Method :=
  c.methods.find? fun m => m.name = name && m.descriptor = descriptor

def field? (c : Class) (name : String) : Option Field := c.fields.find? (·.name = name)

/-- The first annotation of a type. -/
def use? (c : Class) (type : ClassName) : Option AnnotationUse :=
  c.annotations.find? (·.type = type)

def methodRef (c : Class) (m : Method) : MethodRef := ⟨c.name, m.name, m.descriptor⟩

def fieldRef (c : Class) (f : Field) : FieldRef := ⟨c.name, f.name, f.type⟩

end Class

end AnnotationGraph
