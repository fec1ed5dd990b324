import AnnotationGraph.Program.Reader

/-!
# Writing programs

Every field of a record is written, in the order of declaration, and every alternative under its
name, so that the text reads back.  A floating-point number that is not finite has no numeral and is
written as null.

* `Manifest.toJson` — the value of a manifest.
-/

namespace AnnotationGraph

def Json.alternative (name : String) (content : Json) : Json := .record [(name, content)]

def MethodRef.toJson (m : MethodRef) : Json := .record [
  ("owner", .text m.owner), ("name", .text m.name), ("descriptor", .text m.descriptor)]

def FieldRef.toJson (f : FieldRef) : Json := .record [
  ("owner", .text f.owner), ("name", .text f.name), ("field_type", .text f.type)]

/-! ### Annotations -/

/-- In a manifest the numbers of 32 bits are written plainly from a millionth up to ten million
million. -/
def singleLayout : Layout := ⟨-5, 13, false, .even⟩

/-- In a manifest the numbers of 64 bits are written plainly from a hundred thousandth up to ten
thousand million million. -/
def doubleLayout : Layout := ⟨-4, 16, false, .even⟩

def Binary.toJson {f : BinaryFormat} (l : Layout) (x : Binary f) : Json :=
  match x.numeral? l with
  | some n => .number n
  | none => .null

def Constant.toJson : Constant → Json
  | .byte n => .alternative "byte" (.int n.toInt)
  | .char c => .alternative "char" (.text (String.singleton c))
  | .short n => .alternative "short" (.int n.toInt)
  | .int n => .alternative "int" (.int n.toInt)
  | .long n => .alternative "long" (.int n.toInt)
  | .float x => .alternative "float" (x.toJson singleLayout)
  | .double x => .alternative "double" (x.toJson doubleLayout)
  | .boolean b => .alternative "boolean" (.bool b)
  | .string s => .alternative "string" (.text s)

namespace ElementTree

mutual

def toJson : ElementTree → Json
  | .constant c => .alternative "const" c.toJson
  | .enumConstant type name =>
    .alternative "enum" (.record [("type_name", .text type), ("const_name", .text name)])
  | .classLiteral name => .alternative "class" (.text name)
  | .nested type arguments =>
    .alternative "annotation"
      (.record [("type_name", .text type), ("named_arguments", .object (membersOf arguments))])
  | .array items => .alternative "array" (.array (itemsOf items))

def itemsOf : List ElementTree → List Json
  | [] => []
  | item :: items => item.toJson :: itemsOf items

def membersOf : List (String × ElementTree) → List (Option String × Json)
  | [] => []
  | (name, value) :: arguments => (some name, value.toJson) :: membersOf arguments

end

end ElementTree

def AnnotationUse.toJson (use : AnnotationUse) : Json := .record [
  ("type_name", .text use.type),
  ("named_arguments", .record (use.arguments.entries.map fun a => (a.1, a.2.tree.toJson)))]

/-! ### Calls -/

def KnownObject.toJson : KnownObject → Json
  | .classObject name => .alternative "class" (.text name)
  | .constructor target => .alternative "constructor" target.toJson
  | .method target => .alternative "method" target.toJson
  | .field target => .alternative "field" target.toJson
  | .parameter declaring index =>
    .alternative "parameter" (.record [("method", declaring.toJson), ("index", .nat index.toNat)])

def ObjectKey.toJson : ObjectKey → Json
  | .known object => .alternative "constant" object.toJson
  | .allocated type index =>
    .alternative "allocation"
      (.record [("declared_type", .text type), ("index", .nat index.toNat)])
  | .unknown => .text "unknown"

def Dispatch.toJson : Dispatch → Json
  | .virtual => .text "virtual"
  | .interface => .text "interface"
  | .special => .text "special"
  | .static => .text "static"

def Call.toJson (c : Call) : Json := .record [
  ("owner", .text c.owner),
  ("name", .text c.name),
  ("descriptor", .text c.descriptor),
  ("kind", c.dispatch.toJson),
  ("offset", .nat c.offset.toNat),
  ("arguments", .array (c.arguments.map ObjectKey.toJson))]

/-! ### Classes -/

def Access.toJson (a : Access) : Json := .record [
  ("is_public", .bool a.isPublic),
  ("is_static", .bool a.isStatic),
  ("is_abstract", .bool a.isAbstract)]

def Method.toJson (m : Method) : Json := .record [
  ("name", .text m.name),
  ("descriptor", .text m.descriptor),
  ("access", m.access.toJson),
  ("calls", .array (m.calls.map Call.toJson))]

def Field.toJson (f : Field) : Json := .record [
  ("name", .text f.name), ("field_type", .text f.type)]

def superNameToJson : Option ClassName → Json
  | none => .null
  | some name => .text name

def Class.toJson (c : Class) : Json := .record [
  ("name", .text c.name),
  ("super_name", superNameToJson c.superName),
  ("interfaces", .array (c.interfaces.map Json.text)),
  ("annotations", .array (c.annotations.map AnnotationUse.toJson)),
  ("fields", .array (c.fields.map Field.toJson)),
  ("methods", .array (c.methods.map Method.toJson)),
  ("analysis_target", .bool c.analyzed)]

def Manifest.toJson (m : Manifest) : Json := .record [
  ("classes", .array (m.classes.map Class.toJson))]

end AnnotationGraph
