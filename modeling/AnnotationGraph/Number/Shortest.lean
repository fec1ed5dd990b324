import AnnotationGraph.Number.Binary

/-!
# Shortest decimals

The decimal with the fewest digits that a binary format reads back as a given number, and of those
the nearest.  A magnitude is `m * 2 ^ q`; the numbers that round to it form an interval around it,
which holds its ends exactly if `m` is even.  On the grids of one, two, … digits the two neighbours
of the magnitude are tried, in integer arithmetic, and the first grid with a neighbour in the
interval has the answer.

* `Decimal` — digits and the place of the point;
* `Layout` — where a decimal is written plainly and where with a power of ten;
* `Binary.numeral?` — a finite number in a layout.
-/

namespace AnnotationGraph

/-- The number `0.d₁d₂… * 10 ^ point` with digits `d₁d₂…`. -/
structure Decimal where
  digits : List (Fin 10)
  point : Int
  deriving DecidableEq

inductive Tie where
  | up
  | even
  deriving DecidableEq

namespace Decimal

def ofScaled (c : Nat) (e : Int) : Decimal :=
  let digits := decimalDigits c
  ⟨(digits.reverse.dropWhile (· = zeroDigit)).reverse, digits.length + e⟩

/-- The place of the point of `a / b`: the `k` with `10 ^ (k - 1) ≤ a / b < 10 ^ k`. -/
def pointOf (a b : Nat) : Int :=
  if b ≤ a then (decimalDigits (a / b)).length
  else 1 - (decimalDigits ((b - 1) / a)).length

/-- A magnitude with the interval of the numbers that round to it, all in quarters of its last
bit, and the ratio `scale / unit` by which a quarter is `unit / scale`. -/
structure Interval where
  value : Nat
  low : Nat
  high : Nat
  closed : Bool
  unit : Nat
  scale : Nat

/-- The interval of a magnitude pattern.  Below a power of two the numbers lie twice as close. -/
def Interval.of (f : BinaryFormat) (pattern : Nat) : Interval :=
  let (m, q) := f.split pattern
  let closer := m = twoTo (f.precision - 1) ∧ f.leastScale < q
  { value := 4 * m
    low := 4 * m - (if closer then 1 else 2)
    high := 4 * m + 2
    closed := m % 2 = 0
    unit := twoTo (q - 2).toNat
    scale := twoTo (2 - q).toNat }

/-- The nearest decimal of a grid within the interval, if one of the two neighbours of the value on
the grid `10 ^ e` lies in it. -/
def Interval.onGrid? (i : Interval) (tie : Tie) (e : Int) : Option Nat :=
  let a := i.scale * tenTo e.toNat
  let b := i.unit * tenTo (-e).toNat
  let inside (c : Nat) : Bool :=
    if i.closed then i.low * b ≤ c * a ∧ c * a ≤ i.high * b
    else i.low * b < c * a ∧ c * a < i.high * b
  let below := i.value * b / a
  match inside below, inside (below + 1) with
  | false, false => none
  | true, false => some below
  | false, true => some (below + 1)
  | true, true =>
    match compare (2 * (i.value * b)) ((2 * below + 1) * a), tie with
    | .lt, _ => some below
    | .gt, _ => some (below + 1)
    | .eq, .up => some (below + 1)
    | .eq, .even => some (if below % 2 = 0 then below else below + 1)

/-- The shortest decimal of a magnitude pattern.  Seventeen digits tell all numbers of either format
apart. -/
def shortest (f : BinaryFormat) (tie : Tie) (pattern : Nat) : Decimal :=
  let i := Interval.of f pattern
  let point := pointOf (i.value * i.unit) i.scale
  let found := (List.range 17).findSome? fun n =>
    let e := point - (n + 1 : Nat)
    (i.onGrid? tie e).map fun c => ofScaled c e
  found.getD ⟨[], 0⟩

end Decimal

/-- How decimals are written: plainly if the point stands within bounds, else as a mantissa with one
whole digit and a power of ten.  A plain whole number is followed by `.0`. -/
structure Layout where
  leastPoint : Int
  greatestPoint : Int
  /-- whether a mantissa of one digit is followed by `.0` -/
  fullMantissa : Bool
  tie : Tie

namespace Layout

def numeral (l : Layout) (negative : Bool) (d : Decimal) : Numeral :=
  let orZero (digits : List (Fin 10)) := if digits.isEmpty then [zeroDigit] else digits
  if l.leastPoint ≤ d.point ∧ d.point ≤ l.greatestPoint then
    let places := d.point.toNat
    { negative
      whole := ofDecimalDigits 0 (d.digits.take places ++ List.replicate (places - d.digits.length) zeroDigit)
      fraction := List.replicate (-d.point).toNat zeroDigit ++ orZero (d.digits.drop places)
      exponent := none }
  else
    { negative
      whole := ofDecimalDigits 0 (d.digits.take 1)
      fraction := if l.fullMantissa then orZero (d.digits.drop 1) else d.digits.drop 1
      exponent := some (d.point - 1) }

end Layout

def Binary.numeral? {f : BinaryFormat} (l : Layout) (x : Binary f) : Option Numeral :=
  match x.datum with
  | .nan | .infinite _ => none
  | .zero negative => some ⟨negative, 0, [zeroDigit], none⟩
  | .finite negative pattern => some (l.numeral negative (.shortest f l.tie pattern))

end AnnotationGraph
