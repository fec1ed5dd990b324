import AnnotationGraph.Analysis
import AnnotationGraph.Json.Basic

/-!
# Reports

The result of an analysis in the static analysis results interchange format.  Every reported call is
a result with a message, which is read off the body of the call.

* `ReportedCall.description` — the message;
* `Report.log` — the report of several calls.
-/

namespace AnnotationGraph

/-! ### Messages -/

/-- The type that a body allocates last. -/
def Body.allocated? (b : Body) : Option ClassName :=
  (b.instructions.filterMap fun i =>
    match i.action with
    | .new _ site => some site.type
    | .put .. | .leave _ => none).getLast?

/-- The fields that a body writes, each with the text of the constant that is written.  An operand
that is no constant has an empty text. -/
def Body.written (b : Body) : List (String × String) :=
  b.instructions.filterMap fun i =>
    match i.action with
    | .put _ value field => some (field.name, (b.constant? value).getD "")
    | .new .. | .leave _ => none

namespace ReportedCall

def description (c : ReportedCall) : String :=
  let heading := "getAnnotation at offset " ++ toString c.offset.toNat ++ " on " ++ c.subject.text
    ++ " for " ++ c.sought.text
  match c.body.allocated?, c.body.written with
  | none, _ => heading ++ ": no matching annotation, modeled as an empty body"
  | some type, [] => heading ++ ": modeled as new " ++ type
  | some type, fields =>
    let texts := fields.map fun (name, text) => name ++ "=\"" ++ text ++ "\""
    heading ++ ": modeled as new " ++ type ++ " with " ++ ", ".intercalate texts

end ReportedCall

/-! ### The interchange format -/

namespace Report

def toolName : String := "annoscope"

def version : String := "2.1.0"

/-- The address under which the host of schemas keeps the one of the format. -/
def schema : String :=
  "https:" ++ "//" ++ "schemastore.azurewebsites.net" ++ "/schemas/json/sarif-" ++ version ++ ".json"

def location (m : MethodRef) : Json := .record [
  ("logicalLocations", .array [.record [("kind", .text "function"), ("name", .text m.text)]])]

def result (c : ReportedCall) : Json := .record [
  ("locations", .array [location c.caller]),
  ("message", .record [("text", .text c.description)])]

def invocation (arguments : List String) : Json := .record [
  ("arguments", .array (arguments.map Json.text)),
  ("commandLine", .text (" ".intercalate arguments)),
  ("executionSuccessful", .bool true)]

def log (arguments : List String) (calls : List ReportedCall) : Json := .record [
  ("$schema", .text schema),
  ("runs", .array [.record [
    ("invocations", .array [invocation arguments]),
    ("results", .array (calls.map result)),
    ("tool", .record [("driver", .record [("name", .text toolName)])])]]),
  ("version", .text version)]

end Report

end AnnotationGraph
