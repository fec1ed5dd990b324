/-!
# Texts from outside

A text is read symbol by symbol.  A symbol is a character or, in a text that came as bytes, a byte
that belongs to no UTF-8 sequence: such bytes are refused in some places and passed over in others,
so they are kept.

* `Symbol`, `Input` — the type;
* `Input.ofText`, `Input.ofBytes` — how a text comes about;
* `Input.text?`, `Input.shown` — the text without stray bytes, and how one with such bytes is shown.
-/

namespace AnnotationGraph

/-- A character, or a byte outside all UTF-8 sequences. -/
inductive Symbol where
  | char (c : Char)
  | stray (byte : UInt8)
  deriving DecidableEq

abbrev Input := List Symbol

namespace Input

def ofText (s : String) : Input := s.toList.map .char

def firstChar? (bytes : List UInt8) : Option Char :=
  (ByteArray.mk (bytes.take 4).toArray).utf8DecodeChar? 0

/-- The symbols of a list of bytes, after those of the sequence that is passed over. -/
def ofBytesAfter : Nat → List UInt8 → Input
  | _, [] => []
  | passed + 1, _ :: rest => ofBytesAfter passed rest
  | 0, byte :: rest =>
    match firstChar? (byte :: rest) with
    | some c => .char c :: ofBytesAfter (c.utf8Size - 1) rest
    | none => .stray byte :: ofBytesAfter 0 rest

def ofBytes (bytes : List UInt8) : Input := ofBytesAfter 0 bytes

def charOf? : Symbol → Option Char
  | .char c => some c
  | .stray _ => none

def text? (text : Input) : Option String := (text.mapM charOf?).map String.ofList

/-- The number of bytes. -/
def size : Input → Nat
  | [] => 0
  | .char c :: rest => c.utf8Size + size rest
  | .stray _ :: rest => 1 + size rest

/-! ### Showing stray bytes -/

/-- Whether a byte can go on with the beginning of a UTF-8 sequence. -/
def goesOn : List UInt8 → UInt8 → Bool
  | [first], byte =>
    if first = 0xE0 then 0xA0 ≤ byte && byte ≤ 0xBF
    else if first = 0xED then 0x80 ≤ byte && byte ≤ 0x9F
    else if first = 0xF0 then 0x90 ≤ byte && byte ≤ 0xBF
    else if first = 0xF4 then 0x80 ≤ byte && byte ≤ 0x8F
    else 0xE1 ≤ first && first ≤ 0xF3 && 0x80 ≤ byte && byte ≤ 0xBF
  | [first, _], byte => 0xF0 ≤ first && 0x80 ≤ byte && byte ≤ 0xBF
  | _, _ => false

/-- The characters of a text after the beginning of a sequence.  A sequence that is not ended is shown
as one replacement character. -/
def shownAfter (begun : List UInt8) : Input → List Char
  | [] => []
  | .char c :: rest => c :: shownAfter [] rest
  | .stray byte :: rest =>
    if goesOn begun byte then shownAfter (begun ++ [byte]) rest
    else '\ufffd' :: shownAfter [byte] rest

def shown (text : Input) : String := String.ofList (shownAfter [] text)

end Input

end AnnotationGraph
