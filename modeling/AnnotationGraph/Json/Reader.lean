import AnnotationGraph.Json.Basic
import AnnotationGraph.Json.Input

/-!
# Reading JSON

The strict grammar: four blanks, no leading zeros, no control characters inside strings, nothing
after the value.  Each reader takes one phrase off the front of a text and gives the rest.

* `Json.read?` — the value that a whole text spells.

What a string means is settled only where it is used, so escapes that form no Unicode text and
stray bytes give the string `none`.
-/

namespace AnnotationGraph.Json

def isBlank (s : Symbol) : Bool :=
  s = .char ' ' || s = .char '\t' || s = .char '\n' || s = .char '\r'

def skipBlank (input : Input) : Input := input.dropWhile isBlank

def afterWord? : List Char → Input → Option Input
  | [], input => some input
  | c :: word, .char d :: input => if c = d then afterWord? word input else none
  | _, _ => none

/-! ### Numbers -/

def digit? : Symbol → Option (Fin 10)
  | .char c => if '0' ≤ c ∧ c ≤ '9' then some (digitOf c) else none
  | .stray _ => none

def takeDigits : Input → List (Fin 10) × Input
  | [] => ([], [])
  | s :: input =>
    match digit? s with
    | some d =>
      let (digits, rest) := takeDigits input
      (d :: digits, rest)
    | none => ([], s :: input)

/-- The digits before the point: a zero alone, or digits that start with another one. -/
def takeWhole? (input : Input) : Option (Nat × Input) :=
  match input with
  | .char '0' :: rest => some (0, rest)
  | _ =>
    match takeDigits input with
    | ([], _) => none
    | (digits, rest) => some (ofDecimalDigits 0 digits, rest)

def takeFraction? : Input → Option (List (Fin 10) × Input)
  | .char '.' :: input =>
    match takeDigits input with
    | ([], _) => none
    | found => some found
  | input => some ([], input)

def takeSign : Input → Bool × Input
  | .char '-' :: input => (true, input)
  | .char '+' :: input => (false, input)
  | input => (false, input)

def takeExponent? : Input → Option (Option Int × Input)
  | .char c :: input =>
    if c = 'e' ∨ c = 'E' then
      let (negative, input) := takeSign input
      match takeDigits input with
      | ([], _) => none
      | (digits, rest) =>
        let size : Int := ofDecimalDigits 0 digits
        some (some (if negative then -size else size), rest)
    else some (none, .char c :: input)
  | input => some (none, input)

def takeNumeral? (input : Input) : Option (Numeral × Input) := do
  let (negative, input) :=
    match input with
    | .char '-' :: rest => (true, rest)
    | _ => (false, input)
  let (whole, input) ← takeWhole? input
  let (fraction, input) ← takeFraction? input
  let (exponent, input) ← takeExponent? input
  return (⟨negative, whole, fraction, exponent⟩, input)

/-! ### Strings -/

/-- What stands in a string: a character, an escaped UTF-16 code unit, or a stray byte. -/
inductive Piece where
  | char (c : Char)
  | unit (n : Nat)
  | stray

def hexValue? (c : Char) : Option Nat :=
  if '0' ≤ c ∧ c ≤ '9' then some (c.toNat - '0'.toNat)
  else if 'a' ≤ c ∧ c ≤ 'f' then some (c.toNat - 'a'.toNat + 10)
  else if 'A' ≤ c ∧ c ≤ 'F' then some (c.toNat - 'A'.toNat + 10)
  else none

def codeUnit? (a b c d : Char) : Option Nat := do
  return (((← hexValue? a) * 16 + (← hexValue? b)) * 16 + (← hexValue? c)) * 16 + (← hexValue? d)

def escaped? : Char → Option Char
  | '"' => some '"'
  | '\\' => some '\\'
  | '/' => some '/'
  | 'b' => some '\x08'
  | 'f' => some '\x0c'
  | 'n' => some '\n'
  | 'r' => some '\r'
  | 't' => some '\t'
  | _ => none

def takePieces? : Input → Option (List Piece × Input)
  | [] => none
  | .stray _ :: input => (takePieces? input).map fun (ps, rest) => (.stray :: ps, rest)
  | .char c :: input =>
    if c = '"' then some ([], input)
    else if c = '\\' then
      match input with
      | .char 'u' :: .char h₁ :: .char h₂ :: .char h₃ :: .char h₄ :: input =>
        match codeUnit? h₁ h₂ h₃ h₄ with
        | some n => (takePieces? input).map fun (ps, rest) => (.unit n :: ps, rest)
        | none => none
      | .char e :: input =>
        match escaped? e with
        | some d => (takePieces? input).map fun (ps, rest) => (.char d :: ps, rest)
        | none => none
      | _ => none
    else if c.toNat < 32 then none
    else (takePieces? input).map fun (ps, rest) => (.char c :: ps, rest)

def isHighSurrogate (n : Nat) : Bool := 0xD800 ≤ n && n < 0xDC00

def isLowSurrogate (n : Nat) : Bool := 0xDC00 ≤ n && n < 0xE000

/-- The characters that pieces spell.  Surrogates come in pairs, and no byte is stray. -/
def spell? : List Piece → Option (List Char)
  | [] => some []
  | .stray :: _ => none
  | .char c :: ps => (spell? ps).map (c :: ·)
  | .unit n :: ps =>
    if isHighSurrogate n then
      match ps with
      | .unit m :: ps =>
        if isLowSurrogate m then
          (spell? ps).map (Char.ofNat (0x10000 + (n - 0xD800) * 0x400 + (m - 0xDC00)) :: ·)
        else none
      | _ => none
    else if isLowSurrogate n then none
    else (spell? ps).map (Char.ofNat n :: ·)

def takeString? (input : Input) : Option (Option String × Input) :=
  (takePieces? input).map fun (ps, rest) => ((spell? ps).map String.ofList, rest)

/-! ### Values -/

mutual

def takeValue? : Nat → Input → Option (Json × Input)
  | 0, _ => none
  | fuel + 1, input =>
    match skipBlank input with
    | .char '[' :: rest =>
      match skipBlank rest with
      | .char ']' :: rest => some (.array [], rest)
      | rest => (takeItems? fuel rest).map fun (items, rest) => (.array items, rest)
    | .char '\x7b' :: rest =>
      match skipBlank rest with
      | .char '\x7d' :: rest => some (.object [], rest)
      | rest => (takeMembers? fuel rest).map fun (members, rest) => (.object members, rest)
    | .char '"' :: rest => (takeString? rest).map fun (s, rest) => (.string s, rest)
    | .char 'n' :: rest => (afterWord? ['u', 'l', 'l'] rest).map fun rest => (.null, rest)
    | .char 't' :: rest => (afterWord? ['r', 'u', 'e'] rest).map fun rest => (.bool true, rest)
    | .char 'f' :: rest =>
      (afterWord? ['a', 'l', 's', 'e'] rest).map fun rest => (.bool false, rest)
    | rest => (takeNumeral? rest).map fun (n, rest) => (.number n, rest)

/-- One or more values with commas between them, and the end of the array. -/
def takeItems? : Nat → Input → Option (List Json × Input)
  | 0, _ => none
  | fuel + 1, input => do
    let (item, rest) ← takeValue? fuel input
    match skipBlank rest with
    | .char ',' :: rest =>
      let (items, rest) ← takeItems? fuel rest
      return (item :: items, rest)
    | .char ']' :: rest => return ([item], rest)
    | _ => none

def takeMembers? : Nat → Input → Option (List (Option String × Json) × Input)
  | 0, _ => none
  | fuel + 1, input => do
    let .char '"' :: rest := skipBlank input | none
    let (name, rest) ← takeString? rest
    let .char ':' :: rest := skipBlank rest | none
    let (value, rest) ← takeValue? fuel rest
    match skipBlank rest with
    | .char ',' :: rest =>
      let (members, rest) ← takeMembers? fuel rest
      return ((name, value) :: members, rest)
    | .char '\x7d' :: rest => return ([(name, value)], rest)
    | _ => none

end

/-- The value that a whole text spells.  Between two symbols that are read lie at most two calls, so
twice the length is fuel enough. -/
def read? (input : Input) : Option Json := do
  let (json, rest) ← takeValue? (2 * input.length + 1) input
  guard (skipBlank rest).isEmpty
  return json

end AnnotationGraph.Json
