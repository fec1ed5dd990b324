import AnnotationGraph.Number.Numeral

/-!
# Binary floating-point numbers

Interchange formats given by their number of significand bits and of exponent bits, and the numbers
stored in them, kept as bit patterns.

* `BinaryFormat` — a format; `single` and `double` are the two in use;
* `Binary` — a bit pattern of a format, and `Binary.datum`, what it stands for;
* `BinaryFormat.nearest` — the nearest magnitude to a ratio of naturals, a half going to the even
  neighbour;
* `BinaryFormat.multiply`, `BinaryFormat.divide` — products and quotients of magnitudes;
* `Binary.ofInt`, `Binary.round` — integers and numbers of one format in another.
-/

namespace AnnotationGraph

structure BinaryFormat where
  /-- bits of the significand, the leading one included -/
  precision : Nat
  exponentBits : Nat

namespace BinaryFormat

def single : BinaryFormat := ⟨24, 8⟩

def double : BinaryFormat := ⟨53, 11⟩

/-- The bits of a pattern: sign, exponent and the significand without its leading bit. -/
def width (f : BinaryFormat) : Nat := f.precision + f.exponentBits

/-- The power of two of the last bit of the smallest magnitudes. -/
def leastScale (f : BinaryFormat) : Int :=
  3 - (twoTo (f.exponentBits - 1) + f.precision : Nat)

/-- The magnitude pattern of infinity; the greater ones are not numbers. -/
def infinity (f : BinaryFormat) : Nat := (twoTo f.exponentBits - 1) * twoTo (f.precision - 1)

/-- The significand and the power of two that a finite magnitude pattern stands for. -/
def split (f : BinaryFormat) (pattern : Nat) : Nat × Int :=
  let unit := twoTo (f.precision - 1)
  if pattern < unit then (pattern, f.leastScale)
  else (pattern % unit + unit, f.leastScale + (pattern / unit : Nat) - 1)

/-- A quotient rounded to the nearest integer, a half to the even neighbour. -/
def divideToEven (a b : Nat) : Nat :=
  let q := a / b
  let r := a % b
  if 2 * r < b ∨ (2 * r = b ∧ q % 2 = 0) then q else q + 1

/-- The greatest `k` with `2 ^ k ≤ a / b`, for positive `a` and `b`. -/
def floorLog2 (a b : Nat) : Int :=
  let k : Int := (Nat.log2 a : Int) - Nat.log2 b
  if b * twoTo k.toNat ≤ a * twoTo (-k).toNat then k else k - 1

/-- The magnitude pattern nearest to `a / b`, infinity if that lies beyond all finite ones.  The
patterns of one power of two follow those of the power below, so a significand that rounds up to
the next power of two needs no case of its own. -/
def nearest (f : BinaryFormat) (a b : Nat) : Nat :=
  if a = 0 then 0
  else
    let q := max f.leastScale (floorLog2 a b - (f.precision - 1 : Nat))
    let m := divideToEven (a * twoTo (-q).toNat) (b * twoTo q.toNat)
    min f.infinity ((q - f.leastScale).toNat * twoTo (f.precision - 1) + m)

def nearestScaled (f : BinaryFormat) (a b : Nat) (q : Int) : Nat :=
  f.nearest (a * twoTo q.toNat) (b * twoTo (-q).toNat)

def multiply (f : BinaryFormat) (x y : Nat) : Nat :=
  let (m, q) := f.split x
  let (n, r) := f.split y
  f.nearestScaled (m * n) 1 (q + r)

def divide (f : BinaryFormat) (x y : Nat) : Nat :=
  let (m, q) := f.split x
  let (n, r) := f.split y
  f.nearestScaled m n (q - r)

end BinaryFormat

/-- A number of a binary format, as its bit pattern. -/
structure Binary (f : BinaryFormat) where
  bits : BitVec f.width
  deriving DecidableEq

abbrev Binary32 := Binary .single

abbrev Binary64 := Binary .double

inductive Datum where
  | nan
  | infinite (negative : Bool)
  | zero (negative : Bool)
  /-- a number with its magnitude pattern, which is neither zero's nor infinity's -/
  | finite (negative : Bool) (pattern : Nat)
  deriving DecidableEq

namespace Binary

variable {f : BinaryFormat}

def ofMagnitude (negative : Bool) (pattern : Nat) : Binary f :=
  ⟨BitVec.ofNat f.width ((if negative then twoTo (f.width - 1) else 0) + pattern)⟩

def negative (x : Binary f) : Bool := x.bits.msb

def magnitude (x : Binary f) : Nat := x.bits.toNat % twoTo (f.width - 1)

def datum (x : Binary f) : Datum :=
  if f.infinity < x.magnitude then .nan
  else if x.magnitude = f.infinity then .infinite x.negative
  else if x.magnitude = 0 then .zero x.negative
  else .finite x.negative x.magnitude

def ofInt (i : Int) : Binary f := ofMagnitude (decide (i < 0)) (f.nearest i.natAbs 1)

/-- A finite number rounded into another format, where it may become infinite. -/
def round {g : BinaryFormat} (x : Binary f) : Binary g :=
  let (m, q) := f.split x.magnitude
  ofMagnitude x.negative (g.nearestScaled m 1 q)

end Binary

end AnnotationGraph
