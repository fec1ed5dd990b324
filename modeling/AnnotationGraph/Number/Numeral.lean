/-!
# Numerals

A number as it is written: a sign, whole digits, fraction digits and a power of ten.

* `Numeral` — the written form;
* `Numeral.integer?` — the integer that it denotes;
* `ExponentStyle` — how its power of ten is written;
* `Numeral.text` — its spelling.
-/

namespace AnnotationGraph

def twoTo (n : Nat) : Nat := Nat.pow 2 n

def tenTo (n : Nat) : Nat := Nat.pow 10 n

def digitOf (c : Char) : Fin 10 := Fin.ofNat 10 (c.toNat - '0'.toNat)

def zeroDigit : Fin 10 := digitOf '0'

/-- The decimal digits of a number, the first one not zero unless it is the only one. -/
def decimalDigits (n : Nat) : List (Fin 10) := (Nat.toDigits 10 n).map digitOf

/-- The number that decimal digits spell after those of `start`. -/
def ofDecimalDigits (start : Nat) (digits : List (Fin 10)) : Nat :=
  digits.foldl (fun n d => 10 * n + d.val) start

def digitText (d : Fin 10) : Char := Nat.digitChar d.val

structure Numeral where
  negative : Bool
  whole : Nat
  /-- the digits after the point; without any there is no point -/
  fraction : List (Fin 10)
  exponent : Option Int
  deriving DecidableEq

structure ExponentStyle where
  mark : Char
  /-- whether an exponent that is not negative has a plus sign -/
  plus : Bool
  deriving DecidableEq

def ExponentStyle.text (style : ExponentStyle) (exponent : Int) : List Char :=
  style.mark :: ((if exponent < 0 then ['-'] else if style.plus then ['+'] else [])
    ++ Nat.toDigits 10 exponent.natAbs)

namespace Numeral

def ofInt (n : Int) : Numeral := ⟨decide (n < 0), n.natAbs, [], none⟩

/-- The integer that a numeral without point and exponent spells.  A negative zero is none. -/
def integer? (n : Numeral) : Option Int :=
  match n.fraction, n.exponent with
  | [], none =>
    if n.negative then
      if n.whole = 0 then none else some (-(n.whole : Int))
    else some n.whole
  | _, _ => none

def text (style : ExponentStyle) (n : Numeral) : List Char :=
  (if n.negative then ['-'] else []) ++ Nat.toDigits 10 n.whole
    ++ (if n.fraction.isEmpty then [] else '.' :: n.fraction.map digitText)
    ++ (match n.exponent with
      | none => []
      | some e => style.text e)

theorem integer?_ofInt (i : Int) : (ofInt i).integer? = some i := by
  unfold integer? ofInt
  by_cases h : i < 0
  · have hz : i ≠ 0 := by omega
    simp only [h, decide_true, ite_true, Int.natAbs_eq_zero, hz, ite_false, Option.some.injEq]
    omega
  · simp only [h, decide_false, Bool.false_eq_true, ite_false, Option.some.injEq]
    omega

end Numeral

end AnnotationGraph
