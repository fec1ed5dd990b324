import AnnotationGraph.Number.Binary
import Mathlib.Algebra.Order.Field.Power
import Mathlib.Tactic.FieldSimp
import Mathlib.Tactic.Linarith
import Mathlib.Tactic.Positivity
import Mathlib.Tactic.Ring

/-!
# Rounding keeps the order

Magnitude patterns stand for rational numbers, and whatever is rounded to a pattern keeps its order:
a greater ratio has no smaller nearest pattern, and products and quotients of patterns follow their
operands.  A bound on one number is thereby a bound on all below it.

* `divideToEven_mono`             rounded quotients;
* `floorLog2_spec`                the power of two below a ratio;
* `BinaryFormat.nearest_mono`     the nearest pattern of a ratio;
* `BinaryFormat.value_mono`       the number that a pattern stands for;
* `BinaryFormat.value_succ`       the pattern after a pattern;
* `BinaryFormat.multiply_mono`, `BinaryFormat.divide_mono`   products and quotients.
-/

namespace AnnotationGraph

theorem twoTo_pos (n : Nat) : 0 < twoTo n := Nat.two_pow_pos n

theorem twoTo_mono {m n : Nat} (h : m ≤ n) : twoTo m ≤ twoTo n := Nat.pow_le_pow_right (by decide) h

theorem cast_twoTo (n : Nat) : (twoTo n : ℚ) = 2 ^ (n : Int) := by
  rw [twoTo, zpow_natCast]
  exact Nat.cast_pow 2 n

theorem twoTo_div_twoTo (q : Int) : (twoTo q.toNat : ℚ) / twoTo (-q).toNat = 2 ^ q := by
  rw [cast_twoTo, cast_twoTo, ← zpow_sub₀ two_ne_zero]
  congr 1
  omega

namespace BinaryFormat

/-! ### Rounded quotients -/

/-- A rounded quotient is at most half a unit away, and as far as that only if it is even. -/
theorem divideToEven_spec {a b : Nat} (hb : 0 < b) :
    (2 * b * divideToEven a b ≤ 2 * a + b ∧ 2 * a ≤ 2 * b * divideToEven a b + b) ∧
      (2 * b * divideToEven a b = 2 * a + b ∨ 2 * a = 2 * b * divideToEven a b + b →
        divideToEven a b % 2 = 0) := by
  have hdiv := Nat.div_add_mod a b
  have hmod := Nat.mod_lt a hb
  simp only [divideToEven]
  split
  next h =>
    have : 2 * b * (a / b) = 2 * (b * (a / b)) := by ring
    omega
  next h =>
    have : 2 * b * (a / b + 1) = 2 * (b * (a / b)) + 2 * b := by ring
    omega

theorem divideToEven_le {a b : Nat} (hb : 0 < b) : (divideToEven a b - 1 / 2 : ℚ) ≤ a / b ∧
    ((a / b : ℚ) = divideToEven a b - 1 / 2 → divideToEven a b % 2 = 0) := by
  have hbq : (0 : ℚ) < b := by exact_mod_cast hb
  obtain ⟨⟨hhigh, -⟩, heven⟩ := divideToEven_spec (a := a) hb
  rw [le_div_iff₀ hbq, div_eq_iff hbq.ne']
  constructor
  · have : (2 * b * divideToEven a b : ℚ) ≤ 2 * a + b := by exact_mod_cast hhigh
    linarith
  · intro h
    have : (2 * b * divideToEven a b : ℚ) = 2 * a + b := by linarith
    exact heven (.inl (by exact_mod_cast this))

theorem le_divideToEven {a b : Nat} (hb : 0 < b) : (a / b : ℚ) ≤ divideToEven a b + 1 / 2 ∧
    ((a / b : ℚ) = divideToEven a b + 1 / 2 → divideToEven a b % 2 = 0) := by
  have hbq : (0 : ℚ) < b := by exact_mod_cast hb
  obtain ⟨⟨-, hlow⟩, heven⟩ := divideToEven_spec (a := a) hb
  rw [div_le_iff₀ hbq, div_eq_iff hbq.ne']
  constructor
  · have : (2 * a : ℚ) ≤ 2 * b * divideToEven a b + b := by exact_mod_cast hlow
    linarith
  · intro h
    have : (2 * a : ℚ) = 2 * b * divideToEven a b + b := by linarith
    exact heven (.inr (by exact_mod_cast this))

theorem divideToEven_mono {a b a' b' : Nat} (hb : 0 < b) (hb' : 0 < b')
    (h : (a / b : ℚ) ≤ a' / b') : divideToEven a b ≤ divideToEven a' b' := by
  by_contra! hlt
  obtain ⟨hbelow, heven⟩ := divideToEven_le (a := a) hb
  obtain ⟨habove, heven'⟩ := le_divideToEven (a := a') hb'
  -- the ratios lie between two neighbours, so both lie halfway, but only one neighbour is even
  have hnext : divideToEven a b = divideToEven a' b' + 1 := by
    have : (divideToEven a b : ℚ) ≤ divideToEven a' b' + 1 := by linarith
    have : divideToEven a b ≤ divideToEven a' b' + 1 := by exact_mod_cast this
    omega
  rw [hnext] at hbelow heven
  push_cast at hbelow heven
  have hhigh := heven (by linarith)
  have hlow := heven' (by linarith)
  omega

theorem divideToEven_one (n : Nat) : divideToEven n 1 = n := by
  simp [divideToEven, Nat.mod_one]

/-! ### Powers of two -/

theorem cast_log2_le {a : Nat} (ha : a ≠ 0) : (2 : ℚ) ^ (a.log2 : Int) ≤ a := by
  rw [zpow_natCast]
  exact_mod_cast Nat.log2_self_le ha

theorem cast_lt_log2 (a : Nat) : (a : ℚ) < 2 ^ (a.log2 + 1 : Int) := by
  have h : a < 2 ^ (a.log2 + 1) := Nat.lt_log2_self
  exact_mod_cast h

/-- The test of `floorLog2` compares the ratio with a power of two. -/
theorem mul_twoTo_le_iff {a b : Nat} (hb : 0 < b) (k : Int) :
    b * twoTo k.toNat ≤ a * twoTo (-k).toNat ↔ (2 : ℚ) ^ k ≤ a / b := by
  have hbq : (0 : ℚ) < b := by exact_mod_cast hb
  have ht : (0 : ℚ) < twoTo (-k).toNat := by exact_mod_cast twoTo_pos _
  rw [← twoTo_div_twoTo, div_le_div_iff₀ ht hbq, ← Nat.cast_mul, ← Nat.cast_mul, Nat.cast_le,
    Nat.mul_comm b]

theorem floorLog2_spec {a b : Nat} (ha : 0 < a) (hb : 0 < b) :
    (2 : ℚ) ^ floorLog2 a b ≤ a / b ∧ (a / b : ℚ) < 2 ^ (floorLog2 a b + 1) := by
  have haq : (0 : ℚ) < a := by exact_mod_cast ha
  have hbq : (0 : ℚ) < b := by exact_mod_cast hb
  simp only [floorLog2]
  set k : Int := (a.log2 : Int) - b.log2 with hk
  have hlow : (2 : ℚ) ^ (k - 1) ≤ a / b := by
    rw [le_div_iff₀ hbq]
    calc (2 : ℚ) ^ (k - 1) * b
        ≤ 2 ^ (k - 1) * 2 ^ (b.log2 + 1 : Int) := by gcongr; exact (cast_lt_log2 b).le
      _ = 2 ^ (a.log2 : Int) := by rw [← zpow_add₀ two_ne_zero]; congr 1; omega
      _ ≤ a := cast_log2_le ha.ne'
  have hhigh : (a / b : ℚ) < 2 ^ (k + 1) := by
    rw [div_lt_iff₀ hbq]
    calc (a : ℚ) < 2 ^ (a.log2 + 1 : Int) := cast_lt_log2 a
      _ = 2 ^ (k + 1) * 2 ^ (b.log2 : Int) := by rw [← zpow_add₀ two_ne_zero]; congr 1; omega
      _ ≤ 2 ^ (k + 1) * b := by gcongr; exact cast_log2_le hb.ne'
  split
  next h => exact ⟨(mul_twoTo_le_iff hb k).1 h, hhigh⟩
  next h =>
    rw [mul_twoTo_le_iff hb k, not_le] at h
    exact ⟨hlow, by rwa [sub_add_cancel]⟩

/-! ### The nearest pattern -/

variable (f : BinaryFormat)

def lastBit (a b : Nat) : Int :=
  max f.leastScale (floorLog2 a b - (f.precision - 1 : Nat))

/-- The significand of the pattern nearest to a ratio, which may still round up to the next power of
two. -/
def significand (a b : Nat) : Nat :=
  divideToEven (a * twoTo (-f.lastBit a b).toNat) (b * twoTo (f.lastBit a b).toNat)

theorem nearest_of_pos {a : Nat} (ha : 0 < a) (b : Nat) :
    f.nearest a b = min f.infinity
      ((f.lastBit a b - f.leastScale).toNat * twoTo (f.precision - 1) + f.significand a b) := by
  rw [nearest, if_neg ha.ne']
  rfl

theorem nearest_le_infinity (a b : Nat) : f.nearest a b ≤ f.infinity := by
  rcases Nat.eq_zero_or_pos a with rfl | ha
  · exact Nat.zero_le _
  · rw [nearest_of_pos f ha]
    exact Nat.min_le_left _ _

theorem scaled_ratio (a b : Nat) (q : Int) :
    ((a * twoTo q.toNat : Nat) / (b * twoTo (-q).toNat : Nat) : ℚ) = a / b * 2 ^ q := by
  rw [← twoTo_div_twoTo]
  push_cast
  rw [mul_div_mul_comm]

theorem ratio_in_lastBits (a b : Nat) :
    ((a * twoTo (-f.lastBit a b).toNat : Nat) / (b * twoTo (f.lastBit a b).toNat : Nat) : ℚ) =
      a / b * 2 ^ (-f.lastBit a b) := by
  have h := scaled_ratio a b (-f.lastBit a b)
  rwa [neg_neg] at h

theorem lastBit_mono {a b a' b' : Nat} (ha : 0 < a) (hb : 0 < b) (ha' : 0 < a') (hb' : 0 < b')
    (h : (a / b : ℚ) ≤ a' / b') : f.lastBit a b ≤ f.lastBit a' b' := by
  have hlog : floorLog2 a b < floorLog2 a' b' + 1 := by
    rw [← zpow_lt_zpow_iff_right₀ (one_lt_two (α := ℚ))]
    exact (floorLog2_spec ha hb).1.trans_lt (h.trans_lt (floorLog2_spec ha' hb').2)
  simp only [lastBit]
  omega

theorem significand_le {a b : Nat} (ha : 0 < a) (hb : 0 < b) :
    f.significand a b ≤ 2 * twoTo (f.precision - 1) := by
  have hratio : (a / b * 2 ^ (-f.lastBit a b) : ℚ) ≤ 2 * twoTo (f.precision - 1) := by
    have hlog : floorLog2 a b + 1 + -f.lastBit a b ≤ 1 + (f.precision - 1 : Nat) := by
      simp only [lastBit]
      omega
    calc (a / b * 2 ^ (-f.lastBit a b) : ℚ)
        ≤ 2 ^ (floorLog2 a b + 1) * 2 ^ (-f.lastBit a b) := by
          gcongr
          exact (floorLog2_spec ha hb).2.le
      _ = 2 ^ (floorLog2 a b + 1 + -f.lastBit a b) := (zpow_add₀ two_ne_zero _ _).symm
      _ ≤ 2 ^ (1 + (f.precision - 1 : Nat) : Int) := zpow_le_zpow_right₀ one_le_two hlog
      _ = 2 * twoTo (f.precision - 1) := by rw [zpow_add₀ two_ne_zero, zpow_one, cast_twoTo]
  rw [← divideToEven_one (2 * twoTo (f.precision - 1))]
  refine divideToEven_mono (Nat.mul_pos hb (twoTo_pos _)) Nat.one_pos ?_
  rw [ratio_in_lastBits]
  push_cast
  rwa [div_one]

theorem le_significand {a b : Nat} (ha : 0 < a) (hb : 0 < b) (h : f.leastScale < f.lastBit a b) :
    twoTo (f.precision - 1) ≤ f.significand a b := by
  have hratio : (twoTo (f.precision - 1) : ℚ) ≤ a / b * 2 ^ (-f.lastBit a b) := by
    have hlog : ((f.precision - 1 : Nat) : Int) = floorLog2 a b + -f.lastBit a b := by
      simp only [lastBit] at h ⊢
      omega
    calc (twoTo (f.precision - 1) : ℚ) = 2 ^ (floorLog2 a b + -f.lastBit a b) := by
          rw [cast_twoTo, hlog]
      _ = 2 ^ floorLog2 a b * 2 ^ (-f.lastBit a b) := zpow_add₀ two_ne_zero _ _
      _ ≤ a / b * 2 ^ (-f.lastBit a b) := by
          gcongr
          exact (floorLog2_spec ha hb).1
  rw [← divideToEven_one (twoTo (f.precision - 1))]
  refine divideToEven_mono Nat.one_pos (Nat.mul_pos hb (twoTo_pos _)) ?_
  rwa [ratio_in_lastBits, Nat.cast_one, div_one]

theorem nearest_mono {a b a' b' : Nat} (hb : 0 < b) (hb' : 0 < b') (h : (a / b : ℚ) ≤ a' / b') :
    f.nearest a b ≤ f.nearest a' b' := by
  rcases Nat.eq_zero_or_pos a with rfl | ha
  · exact Nat.zero_le _
  have ha' : 0 < a' := by
    rw [Nat.pos_iff_ne_zero]
    rintro rfl
    have : (0 : ℚ) < a / b := by positivity
    simp at h
    linarith
  rw [nearest_of_pos f ha, nearest_of_pos f ha']
  refine min_le_min_left _ ?_
  have hleast : f.leastScale ≤ f.lastBit a b := le_max_left _ _
  rcases (f.lastBit_mono ha hb ha' hb' h).eq_or_lt with hq | hq
  · have hm : f.significand a b ≤ f.significand a' b' := by
      refine divideToEven_mono (Nat.mul_pos hb (twoTo_pos _)) (Nat.mul_pos hb' (twoTo_pos _)) ?_
      rw [ratio_in_lastBits, ratio_in_lastBits, hq]
      gcongr
    rw [hq]
    omega
  · -- the greater ratio lies a power of two above, and its significand has the leading bit
    have hm := f.significand_le ha hb
    have hm' := f.le_significand ha' hb' (hleast.trans_lt hq)
    have hsteps : (f.lastBit a b - f.leastScale).toNat + 1 ≤
        (f.lastBit a' b' - f.leastScale).toNat := by omega
    calc (f.lastBit a b - f.leastScale).toNat * twoTo (f.precision - 1) + f.significand a b
        ≤ ((f.lastBit a b - f.leastScale).toNat + 1) * twoTo (f.precision - 1)
            + twoTo (f.precision - 1) := by linarith
      _ ≤ (f.lastBit a' b' - f.leastScale).toNat * twoTo (f.precision - 1)
            + f.significand a' b' := by gcongr

/-! ### What patterns stand for -/

/-- The number that a magnitude pattern stands for. -/
def value (p : Nat) : ℚ := (f.split p).1 * 2 ^ (f.split p).2

theorem value_of_split {p m q : Nat} (h : f.split p = (m, (q : Int))) :
    f.value p = (m * twoTo q : Nat) := by
  rw [value, h, Nat.cast_mul, cast_twoTo]

theorem split_of_lt {p : Nat} (h : p < twoTo (f.precision - 1)) :
    f.split p = (p, f.leastScale) := if_pos h

theorem split_block (k : Nat) {r : Nat} (hr : r < twoTo (f.precision - 1)) :
    f.split (twoTo (f.precision - 1) * (k + 1) + r) =
      (r + twoTo (f.precision - 1), f.leastScale + k) := by
  have hge : ¬twoTo (f.precision - 1) * (k + 1) + r < twoTo (f.precision - 1) :=
    Nat.not_lt.2 ((Nat.le_mul_of_pos_right _ k.succ_pos).trans (Nat.le_add_right _ _))
  have hscale : f.leastScale + ((k + 1 : Nat) : Int) - 1 = f.leastScale + k := by omega
  rw [split, if_neg hge, Nat.mul_add_mod, Nat.mod_eq_of_lt hr, Nat.mul_add_div (twoTo_pos _),
    Nat.div_eq_of_lt hr, Nat.add_zero, hscale]

/-- The next pattern stands for the number one unit of the last bit above. -/
theorem value_succ (p : Nat) : f.value (p + 1) = ((f.split p).1 + 1) * 2 ^ (f.split p).2 := by
  have hu := twoTo_pos (f.precision - 1)
  obtain ⟨k, r, hr, rfl⟩ : ∃ k r, r < twoTo (f.precision - 1) ∧
      p = twoTo (f.precision - 1) * k + r :=
    ⟨_, _, Nat.mod_lt p hu, (Nat.div_add_mod p _).symm⟩
  rcases Nat.lt_or_ge (r + 1) (twoTo (f.precision - 1)) with hr' | hr'
  · -- the next pattern has the same power of two
    cases k with
    | zero => simp [value, f.split_of_lt hr, f.split_of_lt hr']
    | succ k =>
      rw [value, Nat.add_assoc, f.split_block k hr, f.split_block k hr']
      push_cast
      ring
  · -- the next pattern starts the power of two above
    have hlast : r + 1 = twoTo (f.precision - 1) := by omega
    have hlastq : (r : ℚ) + 1 = twoTo (f.precision - 1) := by exact_mod_cast hlast
    have hnext : twoTo (f.precision - 1) * k + r + 1 = twoTo (f.precision - 1) * (k + 1) + 0 := by
      rw [Nat.mul_succ]
      omega
    rw [value, hnext, f.split_block k hu]
    cases k with
    | zero => simp [f.split_of_lt hr, hlastq]
    | succ k =>
      have hstep : (2 : ℚ) ^ (f.leastScale + ((k + 1 : Nat) : Int)) =
          2 ^ (f.leastScale + k) * 2 := by
        rw [Nat.cast_succ, ← add_assoc, zpow_add_one₀ two_ne_zero]
      rw [f.split_block k hr, hstep]
      push_cast
      rw [← hlastq]
      ring

theorem value_le_succ (p : Nat) : f.value p ≤ f.value (p + 1) := by
  rw [value_succ, value]
  gcongr
  linarith

theorem value_mono {p p' : Nat} (h : p ≤ p') : f.value p ≤ f.value p' :=
  monotone_nat_of_le_succ f.value_le_succ h

theorem value_nonneg (p : Nat) : 0 ≤ f.value p := by
  unfold value
  positivity

theorem nearestScaled_mono {a b a' b' : Nat} {q q' : Int} (hb : 0 < b) (hb' : 0 < b')
    (h : (a / b * 2 ^ q : ℚ) ≤ a' / b' * 2 ^ q') :
    f.nearestScaled a b q ≤ f.nearestScaled a' b' q' := by
  refine f.nearest_mono (Nat.mul_pos hb (twoTo_pos _)) (Nat.mul_pos hb' (twoTo_pos _)) ?_
  rwa [scaled_ratio, scaled_ratio]

theorem multiply_ratio (x y : Nat) :
    (((f.split x).1 * (f.split y).1 : Nat) / (1 : Nat) * 2 ^ ((f.split x).2 + (f.split y).2) : ℚ) =
      f.value x * f.value y := by
  rw [value, value, zpow_add₀ two_ne_zero]
  push_cast
  ring

theorem divide_ratio (x y : Nat) :
    ((f.split x).1 / (f.split y).1 * 2 ^ ((f.split x).2 - (f.split y).2) : ℚ) =
      f.value x / f.value y := by
  rw [value, value, zpow_sub₀ two_ne_zero, mul_div_mul_comm]

theorem multiply_mono {x y x' y' : Nat} (hx : x ≤ x') (hy : y ≤ y') :
    f.multiply x y ≤ f.multiply x' y' := by
  have hratio : f.value x * f.value y ≤ f.value x' * f.value y' :=
    mul_le_mul (f.value_mono hx) (f.value_mono hy) (f.value_nonneg y) (f.value_nonneg x')
  rw [← multiply_ratio, ← multiply_ratio] at hratio
  exact f.nearestScaled_mono Nat.one_pos Nat.one_pos hratio

theorem value_pos {p : Nat} (h : 0 < (f.split p).1) : 0 < f.value p := by
  unfold value
  positivity

theorem divide_mono {x y x' y' : Nat} (hx : x ≤ x') (hy : y' ≤ y) (hpos : 0 < (f.split y').1) :
    f.divide x y ≤ f.divide x' y' := by
  have hvalue : 0 < f.value y := (f.value_pos hpos).trans_le (f.value_mono hy)
  have hpos' : 0 < (f.split y).1 := by
    rw [Nat.pos_iff_ne_zero]
    intro h
    simp [value, h] at hvalue
  have hratio : f.value x / f.value y ≤ f.value x' / f.value y' :=
    div_le_div₀ (f.value_nonneg x') (f.value_mono hx) (f.value_pos hpos) (f.value_mono hy)
  rw [← divide_ratio, ← divide_ratio] at hratio
  exact f.nearestScaled_mono hpos' hpos hratio

end BinaryFormat

end AnnotationGraph
