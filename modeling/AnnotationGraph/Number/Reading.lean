import AnnotationGraph.Number.Binary

/-!
# Reading numerals

A numeral is read into 64 bits with a significand that fits in a word and with two rounded
operands: the significand and the power of ten are each rounded, and so is their product or
quotient.  A numeral of at most fifteen digits and a small exponent is read exactly to the nearest
number, any other may be read as a neighbour of it.

* `appendWithin` — the digits that a word has room for;
* `Numeral.cut` — a numeral as a word and a power of ten;
* `Binary64.magnitude?` — their product;
* `Binary64.ofNumeral?` — a numeral read into 64 bits.
-/

namespace AnnotationGraph

def maxWord : Nat := 18446744073709551615

/-- The number with leading digits of a list written behind it, up to the first that makes it greater
than a bound, and the digits that are left. -/
def appendWithin (bound n : Nat) : List (Fin 10) → Nat × List (Fin 10)
  | [] => (n, [])
  | d :: digits =>
    let next := 10 * n + d.val
    if next ≤ bound then appendWithin bound next digits else (n, d :: digits)

/-- A numeral as `c * 10 ^ e` with a word `c`.  Digits before the point that do not fit count as
zeros, those after it are left out. -/
def Numeral.cut (n : Numeral) : Nat × Int :=
  let (c, dropped) := appendWithin maxWord 0 (decimalDigits n.whole)
  let (c, left) := appendWithin maxWord c n.fraction
  (c, n.exponent.getD 0 + dropped.length - n.fraction.length + left.length)

namespace Binary64

def maxTenExponent : Nat := 308

def powerOfTen (n : Nat) : Nat := BinaryFormat.double.nearest (tenTo n) 1

/-- A magnitude pattern divided by a power of ten.  Beyond the greatest power there is a second step,
and a word that two steps do not suffice for has become zero. -/
def divideByTenTo (x n : Nat) : Nat :=
  if n ≤ maxTenExponent then BinaryFormat.double.divide x (powerOfTen n)
  else
    let rest := n - maxTenExponent
    if rest ≤ maxTenExponent then
      BinaryFormat.double.divide (BinaryFormat.double.divide x (powerOfTen maxTenExponent))
        (powerOfTen rest)
    else 0

/-- The finite magnitude pattern of `c * 10 ^ e`, each operand and the result rounded. -/
def magnitude? (c : Nat) (e : Int) : Option Nat :=
  let x := BinaryFormat.double.nearest c 1
  if e < 0 then some (divideByTenTo x e.natAbs)
  else if x = 0 then some 0
  else if e ≤ maxTenExponent then
    (some (BinaryFormat.double.multiply x (powerOfTen e.toNat))).filter
      fun pattern => pattern < BinaryFormat.double.infinity
  else none

def ofNumeral? (n : Numeral) : Option Binary64 :=
  let (c, e) := n.cut
  (magnitude? c e).map (Binary.ofMagnitude n.negative)

end Binary64

end AnnotationGraph
