/-!
# Method descriptors

A descriptor lists the parameter types of a method in parentheses, then the result type.  A type is a
letter for a primitive type, `L`, a class name and a semicolon, or one to 255 brackets and the type
that the array holds.  A class name is any text without a semicolon, and text after the result type
is not looked at.

* `Descriptor.parameterCount?` — the number of parameter types.
-/

namespace AnnotationGraph.Descriptor

/-- The letters of the primitive types and of the empty result. -/
def isPrimitive (c : Char) : Bool :=
  c = 'B' || c = 'C' || c = 'D' || c = 'F' || c = 'I' || c = 'J' || c = 'S' || c = 'Z' || c = 'V'

def maxDimensions : Nat := 255

def afterName? : List Char → Option (List Char)
  | [] => none
  | c :: rest => if c = ';' then some rest else afterName? rest

/-- The text after one type, of which some brackets have been read. -/
def afterType? (dimensions : Nat) : List Char → Option (List Char)
  | [] => none
  | c :: rest =>
    if c = '[' then
      if dimensions < maxDimensions then afterType? (dimensions + 1) rest else none
    else if c = 'L' then afterName? rest
    else if isPrimitive c then some rest
    else none

/-- The number of types before the closing parenthesis, and the text after it.  Each type takes a
character at least, so the length of the text is enough for the count of steps. -/
def parameters? : Nat → List Char → Option (Nat × List Char)
  | 0, _ => none
  | steps + 1, text =>
    match text with
    | ')' :: rest => some (0, rest)
    | _ => do
      let (n, rest) ← parameters? steps (← afterType? 0 text)
      return (n + 1, rest)

def parameterCount? (descriptor : String) : Option Nat :=
  match descriptor.toList with
  | '(' :: text => do
    let (n, rest) ← parameters? text.length text
    let _ ← afterType? 0 rest
    return n
  | _ => none

end AnnotationGraph.Descriptor
