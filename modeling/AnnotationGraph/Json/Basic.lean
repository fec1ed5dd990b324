import AnnotationGraph.Number.Numeral

/-!
# JSON values

A JSON text as a tree that keeps the order of members and their repetitions, and numbers as they are
written.

* `Json` — the tree;
* `Json.compact`, `Json.pretty` — its spelling without blanks, and with two blanks per level.
-/

namespace AnnotationGraph

/-- A JSON value.  A string is `none` if its escapes spell no Unicode text. -/
inductive Json where
  | null
  | bool (value : Bool)
  | number (value : Numeral)
  | string (value : Option String)
  | array (items : List Json)
  | object (members : List (Option String × Json))

namespace Json

def text (s : String) : Json := .string (some s)

def int (n : Int) : Json := .number (.ofInt n)

def nat (n : Nat) : Json := .int n

def record (members : List (String × Json)) : Json :=
  .object (members.map fun (name, value) => (some name, value))

/-! ### Spelling -/

def exponentStyle : ExponentStyle := ⟨'e', true⟩

def hexDigit (n : Nat) : Char := Nat.digitChar n

def escape (c : Char) : List Char :=
  if c = '"' then ['\\', '"']
  else if c = '\\' then ['\\', '\\']
  else if c = '\n' then ['\\', 'n']
  else if c = '\r' then ['\\', 'r']
  else if c = '\t' then ['\\', 't']
  else if c = '\x08' then ['\\', 'b']
  else if c = '\x0c' then ['\\', 'f']
  else if c.toNat < 32 then ['\\', 'u', '0', '0', hexDigit (c.toNat / 16), hexDigit (c.toNat % 16)]
  else [c]

/-- A string in quotes.  Text that is not Unicode is written as a lone surrogate. -/
def quote : Option String → List Char
  | some s => '"' :: (s.toList.flatMap escape ++ ['"'])
  | none => ['"', '\\', 'u', 'd', '8', '0', '0', '"']

mutual

def compactChars : Json → List Char
  | .null => ['n', 'u', 'l', 'l']
  | .bool true => ['t', 'r', 'u', 'e']
  | .bool false => ['f', 'a', 'l', 's', 'e']
  | .number n => n.text exponentStyle
  | .string s => quote s
  | .array [] => ['[', ']']
  | .array (item :: items) => '[' :: (compactChars item ++ compactItems items)
  | .object [] => ['\x7b', '\x7d']
  | .object ((name, value) :: members) =>
    '\x7b' :: (quote name ++ ':' :: (compactChars value ++ compactMembers members))

/-- The items after the first, and the end of the array. -/
def compactItems : List Json → List Char
  | [] => [']']
  | item :: items => ',' :: (compactChars item ++ compactItems items)

def compactMembers : List (Option String × Json) → List Char
  | [] => ['\x7d']
  | (name, value) :: members =>
    ',' :: (quote name ++ ':' :: (compactChars value ++ compactMembers members))

end

def newLine (level : Nat) : List Char := '\n' :: List.replicate (2 * level) ' '

mutual

/-- The spelling with one item or member a line, at a level of nesting. -/
def prettyChars (level : Nat) : Json → List Char
  | .array (item :: items) =>
    '[' :: (newLine (level + 1) ++ prettyChars (level + 1) item ++ prettyItems level items)
  | .object ((name, value) :: members) =>
    '\x7b' :: (newLine (level + 1) ++ quote name ++ ':' :: ' ' :: prettyChars (level + 1) value
      ++ prettyMembers level members)
  | .null => ['n', 'u', 'l', 'l']
  | .bool true => ['t', 'r', 'u', 'e']
  | .bool false => ['f', 'a', 'l', 's', 'e']
  | .number n => n.text exponentStyle
  | .string s => quote s
  | .array [] => ['[', ']']
  | .object [] => ['\x7b', '\x7d']

def prettyItems (level : Nat) : List Json → List Char
  | [] => newLine level ++ [']']
  | item :: items =>
    ',' :: (newLine (level + 1) ++ prettyChars (level + 1) item ++ prettyItems level items)

def prettyMembers (level : Nat) : List (Option String × Json) → List Char
  | [] => newLine level ++ ['\x7d']
  | (name, value) :: members =>
    ',' :: (newLine (level + 1) ++ quote name ++ ':' :: ' ' :: prettyChars (level + 1) value
      ++ prettyMembers level members)

end

def compact (json : Json) : String := String.ofList json.compactChars

def pretty (json : Json) : String := String.ofList (json.prettyChars 0)

end Json

end AnnotationGraph
