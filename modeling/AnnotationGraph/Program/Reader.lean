import AnnotationGraph.Json.Fields
import AnnotationGraph.Json.Reader
import AnnotationGraph.Number.Reading
import AnnotationGraph.Program.Class

/-!
# Reading programs

A program is described by a JSON text, its manifest.  Records are objects, or arrays of their fields
in order; alternatives are objects with one member named after the alternative.

* `Manifest` — the classes of a program;
* `Manifest.read?` — the manifest that a text spells.

Every reader is given the number of arrays and objects that may still be opened, so nesting is
limited along the data that are used; members that no record knows are not looked into.
-/

namespace AnnotationGraph

open Json (required defaulted)

structure Manifest where
  classes : List Class

/-- Whether a value opens no more than one array or object when none may be opened. -/
def Json.fits (depth : Nat) : Json → Bool
  | .array _ | .object _ => 0 < depth
  | _ => true

def Json.listOf? {α : Type} (decode : Nat → Json → Option α) : Nat → Json → Option (List α)
  | 0, _ => none
  | depth + 1, json => do (← json.items?).mapM (decode depth)

def Json.record? (names : List String) : Nat → Json → Option (List (Option Json))
  | 0, _ => none
  | _ + 1, json => json.fields? names

def Json.word? (json : Json) : Option UInt32 := (json.natUpTo? 4294967295).map UInt32.ofNat

/-! ### References -/

def MethodRef.ofJson? (depth : Nat) (json : Json) : Option MethodRef := do
  let [owner, name, descriptor] ← json.record? ["owner", "name", "descriptor"] depth | none
  return {
    owner := ← required Json.text? owner
    name := ← required Json.text? name
    descriptor := ← required Json.text? descriptor }

def FieldRef.ofJson? (depth : Nat) (json : Json) : Option FieldRef := do
  let [owner, name, type] ← json.record? ["owner", "name", "field_type"] depth | none
  return {
    owner := ← required Json.text? owner
    name := ← required Json.text? name
    type := ← required Json.text? type }

/-! ### Annotations -/

/-- A number of 32 bits.  An integer of at most 64 bits is rounded once; every other numeral is
read into 64 bits first and must be finite there. -/
def Binary32.ofJson? : Json → Option Binary32
  | .number n =>
    match n.integer?.filter fun i => -9223372036854775808 ≤ i && i ≤ 18446744073709551615 with
    | some i => some (.ofInt i)
    | none => (Binary64.ofNumeral? n).map Binary.round
  | _ => none

def Binary64.ofJson? : Json → Option Binary64
  | .number n => Binary64.ofNumeral? n
  | _ => none

def Constant.ofJson? : Nat → Json → Option Constant
  | 0, _ => none
  | _ + 1, json =>
    match json.variant? with
    | some ("byte", some n) => (n.integerIn? (-128) 127).map fun i => .byte (.ofInt i)
    | some ("char", some c) => c.char?.map .char
    | some ("short", some n) => (n.integerIn? (-32768) 32767).map fun i => .short (.ofInt i)
    | some ("int", some n) => (n.integerIn? (-2147483648) 2147483647).map fun i => .int (.ofInt i)
    | some ("long", some n) =>
      (n.integerIn? (-9223372036854775808) 9223372036854775807).map fun i => .long (.ofInt i)
    | some ("float", some x) => (Binary32.ofJson? x).map .float
    | some ("double", some x) => (Binary64.ofJson? x).map .double
    | some ("boolean", some b) => b.bool?.map .boolean
    | some ("string", some s) => s.text?.map .string
    | _ => none

def Element.enumOfJson? (depth : Nat) (json : Json) : Option Element := do
  let [type, name] ← json.record? ["type_name", "const_name"] depth | none
  return .enumConstant (← required Json.text? type) (← required Json.text? name)

mutual

def Element.ofJson? : Nat → Json → Option Element
  | 0, _ => none
  | depth + 1, json =>
    match json.variant? with
    | some ("const", some content) => (Constant.ofJson? depth content).map .constant
    | some ("enum", some content) => Element.enumOfJson? depth content
    | some ("class", some content) => content.text?.map .classLiteral
    | some ("annotation", some content) => (AnnotationUse.ofJson? depth content).map .nested
    | some ("array", some content) =>
      match depth with
      | 0 => none
      | depth + 1 => do return .array (← (← content.items?).mapM (Element.ofJson? depth))
    | _ => none

/-- An annotation.  Of two arguments with one name the later counts. -/
def AnnotationUse.ofJson? : Nat → Json → Option AnnotationUse
  | 0, _ => none
  | depth + 1, json => do
    let [type, arguments] ← json.fields? ["type_name", "named_arguments"] | none
    let type ← required Json.text? type
    match arguments with
    | none => return ⟨type, .empty⟩
    | some content =>
      match depth with
      | 0 => none
      | depth + 1 =>
        let entries ← (← content.members?).mapM fun (name, value) =>
          (Element.ofJson? depth value).map fun element => (name, element)
        return ⟨type, .ofList entries⟩

end

/-! ### Calls -/

def KnownObject.ofJson? : Nat → Json → Option KnownObject
  | 0, _ => none
  | depth + 1, json =>
    match json.variant? with
    | some ("class", some content) => content.text?.map .classObject
    | some ("constructor", some content) => (MethodRef.ofJson? depth content).map .constructor
    | some ("method", some content) => (MethodRef.ofJson? depth content).map .method
    | some ("field", some content) => (FieldRef.ofJson? depth content).map .field
    | some ("parameter", some content) => do
      let [declaring, index] ← content.record? ["method", "index"] depth | none
      return .parameter (← required (MethodRef.ofJson? (depth - 1)) declaring)
        (← required Json.word? index)
    | _ => none

def ObjectKey.ofJson? (depth : Nat) (json : Json) : Option ObjectKey :=
  if json.fits depth then
    match json.variant? with
    | some ("constant", some content) => (KnownObject.ofJson? (depth - 1) content).map .known
    | some ("allocation", some content) => do
      let [type, index] ← content.record? ["declared_type", "index"] (depth - 1) | none
      return .allocated (← required Json.text? type) (← required Json.word? index)
    | some ("unknown", content) => if Json.isUnit content then some .unknown else none
    | _ => none
  else none

def Dispatch.ofJson? (depth : Nat) (json : Json) : Option Dispatch := do
  guard (json.fits depth)
  let (name, content) ← json.variant?
  guard (Json.isUnit content)
  match name with
  | "virtual" => some .virtual
  | "interface" => some .interface
  | "special" => some .special
  | "static" => some .static
  | _ => none

def Call.ofJson? (depth : Nat) (json : Json) : Option Call := do
  let [owner, name, descriptor, dispatch, offset, arguments] ←
    json.record? ["owner", "name", "descriptor", "kind", "offset", "arguments"] depth | none
  let inner := depth - 1
  return {
    owner := ← required Json.text? owner
    name := ← required Json.text? name
    descriptor := ← required Json.text? descriptor
    dispatch := ← required (Dispatch.ofJson? inner) dispatch
    offset := ← required Json.word? offset
    arguments := ← defaulted [] (Json.listOf? ObjectKey.ofJson? inner) arguments }

/-! ### Classes -/

def Access.ofJson? (depth : Nat) (json : Json) : Option Access := do
  let [isPublic, isStatic, isAbstract] ←
    json.record? ["is_public", "is_static", "is_abstract"] depth | none
  return {
    isPublic := ← defaulted false Json.bool? isPublic
    isStatic := ← defaulted false Json.bool? isStatic
    isAbstract := ← defaulted false Json.bool? isAbstract }

def Method.ofJson? (depth : Nat) (json : Json) : Option Method := do
  let [name, descriptor, access, calls] ←
    json.record? ["name", "descriptor", "access", "calls"] depth | none
  let inner := depth - 1
  return {
    name := ← required Json.text? name
    descriptor := ← required Json.text? descriptor
    access := ← defaulted ⟨false, false, false⟩ (Access.ofJson? inner) access
    calls := ← defaulted [] (Json.listOf? Call.ofJson? inner) calls }

def Field.ofJson? (depth : Nat) (json : Json) : Option Field := do
  let [name, type] ← json.record? ["name", "field_type"] depth | none
  return { name := ← required Json.text? name, type := ← required Json.text? type }

def superNameOfJson? : Json → Option (Option ClassName)
  | .null => some none
  | json => json.text?.map some

/-- A class.  It is analyzed unless it says otherwise. -/
def Class.ofJson? (depth : Nat) (json : Json) : Option Class := do
  let [name, superName, interfaces, annotations, fields, methods, analyzed] ←
    json.record? ["name", "super_name", "interfaces", "annotations", "fields", "methods",
      "analysis_target"] depth | none
  let inner := depth - 1
  return {
    name := ← required Json.text? name
    superName := ← defaulted none superNameOfJson? superName
    interfaces := ← defaulted [] (Json.listOf? (fun _ => Json.text?) inner) interfaces
    annotations := ← defaulted [] (Json.listOf? AnnotationUse.ofJson? inner) annotations
    fields := ← defaulted [] (Json.listOf? Field.ofJson? inner) fields
    methods := ← defaulted [] (Json.listOf? Method.ofJson? inner) methods
    analyzed := ← defaulted true Json.bool? analyzed }

namespace Manifest

/-- The number of arrays and objects that a text may hold open at once. -/
def depthLimit : Nat := 127

def ofJson? (depth : Nat) (json : Json) : Option Manifest := do
  let [classes] ← json.record? ["classes"] depth | none
  return { classes := ← defaulted [] (Json.listOf? Class.ofJson? (depth - 1)) classes }

def read? (input : Input) : Option Manifest := Json.read? input >>= ofJson? depthLimit

end Manifest

end AnnotationGraph
