/-!
# References to classes, methods and fields

Classes are named in slash form.  A method is referred to by the class that declares it, its name
and its descriptor, a field by its class, its name and its type.
-/

namespace AnnotationGraph

/-- The name of a class, its packages separated by slashes. -/
abbrev ClassName := String

structure MethodRef where
  owner : ClassName
  name : String
  descriptor : String
  deriving DecidableEq

/-- The spelling `owner.name` with the descriptor at once after it. -/
def MethodRef.text (m : MethodRef) : String := m.owner ++ "." ++ m.name ++ m.descriptor

structure FieldRef where
  owner : ClassName
  name : String
  type : ClassName
  deriving DecidableEq

def FieldRef.text (f : FieldRef) : String := f.owner ++ "." ++ f.name ++ ":" ++ f.type

/-! ### Classes of the platform -/

def objectClass : ClassName := "java/lang/Object"
def classClass : ClassName := "java/lang/Class"
def stringClass : ClassName := "java/lang/String"
def integerClass : ClassName := "java/lang/Integer"
def booleanClass : ClassName := "java/lang/Boolean"
def enumClass : ClassName := "java/lang/Enum"
def markerInterface : ClassName := "java/lang/annotation/Annotation"

end AnnotationGraph
