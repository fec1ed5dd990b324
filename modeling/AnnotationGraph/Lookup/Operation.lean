import AnnotationGraph.Program.Reference

/-!
# Reflective annotation lookups

The five methods of the platform that look up an annotation on a reflective object.
-/

namespace AnnotationGraph

/-- A lookup method, by the kind of object it is called on. -/
inductive Operation where
  | onClass
  | onConstructor
  | onMethod
  | onField
  | onParameter
  deriving DecidableEq

namespace Operation

def all : List Operation := [.onClass, .onConstructor, .onMethod, .onField, .onParameter]

def owner : Operation → ClassName
  | .onClass => classClass
  | .onConstructor => "java/lang/reflect/Constructor"
  | .onMethod => "java/lang/reflect/Method"
  | .onField => "java/lang/reflect/Field"
  | .onParameter => "java/lang/reflect/Parameter"

def methodName : String := "getAnnotation"

def descriptor : String := "(Ljava/lang/Class;)Ljava/lang/annotation/Annotation;"

def method (op : Operation) : MethodRef := ⟨op.owner, methodName, descriptor⟩

def of? (m : MethodRef) : Option Operation := all.find? fun op => m = op.method

/-- Whether calls of the method get a context of their own. -/
def hasContext : Operation → Bool
  | .onClass | .onConstructor | .onMethod => true
  | .onField | .onParameter => false

def hasBody : Operation → Bool
  | .onClass => true
  | .onConstructor | .onMethod | .onField | .onParameter => false

theorem of?_method (op : Operation) : of? op.method = some op := by
  cases op <;> decide

theorem of?_eq_some_iff {m : MethodRef} {op : Operation} : of? m = some op ↔ m = op.method := by
  constructor
  · intro h
    simpa using List.find?_some h
  · rintro rfl
    exact of?_method op

end Operation

end AnnotationGraph
