import AnnotationGraph.Json.Basic

/-!
# Records and alternatives in JSON

How typed data lies in JSON values, whatever the types are.

* `Json.fields?` — the fields of a record, from an object in any order or from an array in the order
  of declaration;
* `Json.variant?` — the chosen alternative: an object with one member, or a string for an
  alternative without content;
* `text?`, `bool?`, `integerIn?`, `char?`, `items?` — the plain values.
-/

namespace AnnotationGraph.Json

def text? : Json → Option String
  | .string s => s
  | _ => none

def bool? : Json → Option Bool
  | .bool b => some b
  | _ => none

def items? : Json → Option (List Json)
  | .array items => some items
  | _ => none

def members? : Json → Option (List (String × Json))
  | .object members => members.mapM fun (name, value) => name.map (·, value)
  | _ => none

/-- The integer of a number value within bounds, written without point and exponent. -/
def integerIn? (low high : Int) : Json → Option Int
  | .number n => n.integer?.filter fun i => low ≤ i && i ≤ high
  | _ => none

def natUpTo? (high : Nat) (json : Json) : Option Nat :=
  (json.integerIn? 0 high).map Int.toNat

def char? (json : Json) : Option Char :=
  match json.text?.map String.toList with
  | some [c] => some c
  | _ => none

/-- The values of the named fields.  An object may have further members but none of the named ones
twice; an array gives the fields in order and may leave off the last ones. -/
def fields? (names : List String) (json : Json) : Option (List (Option Json)) :=
  match json with
  | .array items =>
    if items.length ≤ names.length then
      some (items.map some ++ List.replicate (names.length - items.length) none)
    else none
  | _ => do
    let members ← json.members?
    names.mapM fun name =>
      match members.filter (·.1 = name) with
      | [] => some none
      | [(_, value)] => some (some value)
      | _ => none

def variant? : Json → Option (String × Option Json)
  | .string s => s.map (·, none)
  | .object [(name, value)] => name.map (·, some value)
  | _ => none

def isUnit : Option Json → Bool
  | none | some .null => true
  | some _ => false

def required {α : Type} (decode : Json → Option α) (field : Option Json) : Option α :=
  field.bind decode

def defaulted {α : Type} (default : α) (decode : Json → Option α) : Option Json → Option α
  | none => some default
  | some json => decode json

end AnnotationGraph.Json
