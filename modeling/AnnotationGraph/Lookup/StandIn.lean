import AnnotationGraph.Program.Class

/-!
# Stand-in classes

The object that a lookup finds is an instance of a class made up for the annotation as it stands on
one subject: it implements the annotation's type and has a field for each argument.

* `StandIn.name` — the name of the class, which tells subject and annotation apart;
* `StandIn.fieldType` — the type of the field for an argument;
* `StandIn.ofUse` — the class.
-/

namespace AnnotationGraph.StandIn

def package : String := "synthetic/annotation"

/-- A character of a class name inside the name of a stand-in.  An underscore only begins an escape
of two characters, and a dollar sign does not occur. -/
def encodeChar (c : Char) : List Char :=
  if c = '/' then ['_', '0']
  else if c = '_' then ['_', '1']
  else if c = '$' then ['_', '2']
  else [c]

def encode (name : ClassName) : String := String.ofList (name.toList.flatMap encodeChar)

def name (subject type : ClassName) : ClassName :=
  package ++ "/" ++ encode subject ++ "$" ++ encode type

/-- The type of the field that holds an argument.  An array is held like its first item, and what has
no type of its own is held like a class. -/
def fieldType : ElementTree → ClassName
  | .constant (.string _) => stringClass
  | .constant (.int _) => integerClass
  | .constant (.boolean _) => booleanClass
  | .enumConstant .. => enumClass
  | .array (first :: _) => fieldType first
  | .array [] | .constant _ | .classLiteral _ | .nested .. => classClass

def field (argument : String × Element) : Field := ⟨argument.1, fieldType argument.2.tree⟩

def ofUse (subject : ClassName) (use : AnnotationUse) : Class where
  name := name subject use.type
  superName := some objectClass
  interfaces := [use.type]
  annotations := []
  fields := use.arguments.entries.map field
  methods := []
  analyzed := false

end AnnotationGraph.StandIn
