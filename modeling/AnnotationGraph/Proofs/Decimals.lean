import AnnotationGraph.Proofs.Numerals
import AnnotationGraph.Proofs.Rounding
import Mathlib.Data.List.DropRight

/-!
# Shortest decimals are small

The shortest decimal of a magnitude pattern has at most seventeen digits, and as it rounds to the
pattern it is not greater than the number of the next pattern.

* `Decimal.value`                      the number that a decimal stands for;
* `Decimal.pointOf_spec`               the place of the point bounds a ratio;
* `Decimal.Interval.onGrid?_le`        what is found on a grid lies in the interval;
* `Decimal.length_shortest_le`, `Decimal.shortest_value_le`   digits and size.
-/

namespace AnnotationGraph.Decimal

open BinaryFormat

/-- The number that a decimal stands for. -/
def value (d : Decimal) : ℚ :=
  ofDecimalDigits 0 d.digits * 10 ^ (d.point - d.digits.length)

theorem cast_tenTo (n : Nat) : (tenTo n : ℚ) = 10 ^ (n : Int) := by
  rw [tenTo, zpow_natCast]
  exact Nat.cast_pow 10 n

theorem tenTo_div_tenTo (e : Int) : (tenTo e.toNat : ℚ) / tenTo (-e).toNat = 10 ^ e := by
  rw [cast_tenTo, cast_tenTo, ← zpow_sub₀ (by norm_num)]
  congr 1
  omega

/-! ### Trailing zeros -/

theorem exists_stripped (c : Nat) : ∃ ds k, decimalDigits c = ds ++ List.replicate k zeroDigit ∧
    ∀ e, ofScaled c e = ⟨ds, (ds.length + k : Nat) + e⟩ := by
  have hzeros : (decimalDigits c).reverse.takeWhile (· = zeroDigit) =
      List.replicate ((decimalDigits c).reverse.takeWhile (· = zeroDigit)).length zeroDigit :=
    List.eq_replicate_length.2 fun d hd => by simpa using List.mem_takeWhile_imp hd
  have hdigits : decimalDigits c = ((decimalDigits c).reverse.dropWhile (· = zeroDigit)).reverse ++
      List.replicate ((decimalDigits c).reverse.takeWhile (· = zeroDigit)).length zeroDigit := by
    rw [← List.reverse_replicate, ← hzeros, ← List.reverse_append,
      List.takeWhile_append_dropWhile, List.reverse_reverse]
  have hlength := congrArg List.length hdigits
  rw [List.length_append, List.length_replicate] at hlength
  exact ⟨_, _, hdigits, fun e => by rw [ofScaled, hlength]⟩

theorem value_ofScaled (c : Nat) (e : Int) : (ofScaled c e).value = c * 10 ^ e := by
  obtain ⟨ds, k, hdigits, hscaled⟩ := exists_stripped c
  have hc : c = ofDecimalDigits 0 ds * tenTo k := by
    rw [← ofDecimalDigits_replicate_zero, ← ofDecimalDigits_append, ← hdigits,
      ofDecimalDigits_decimalDigits]
  have hpower : (((ds.length + k : Nat) : Int) + e - ds.length) = k + e := by omega
  rw [hscaled, value, hpower, zpow_add₀ (by norm_num), ← cast_tenTo, ← mul_assoc]
  congr 1
  exact_mod_cast hc.symm

theorem length_ofScaled_le {c : Nat} (e : Int) (h : c ≤ tenTo 17) :
    (ofScaled c e).digits.length ≤ 17 := by
  rcases h.lt_or_eq with hlt | rfl
  · obtain ⟨ds, k, hdigits, hscaled⟩ := exists_stripped c
    have hlength := (length_decimalDigits_le_iff (by decide)).2 hlt
    rw [hdigits, List.length_append] at hlength
    rw [hscaled]
    exact (Nat.le_add_right _ _).trans hlength
  · have hone : (((decimalDigits (tenTo 17)).reverse.dropWhile (· = zeroDigit)).reverse).length ≤ 17 := by
      decide +kernel
    exact hone

/-! ### The place of the point -/

/-- A ratio is below the power of ten at the place of its point. -/
theorem pointOf_spec {a b : Nat} (hb : 0 < b) : (a / b : ℚ) < 10 ^ pointOf a b := by
  have hbq : (0 : ℚ) < b := by exact_mod_cast hb
  unfold pointOf
  split
  next hle =>
    have hlt : a / b < tenTo (decimalDigits (a / b)).length :=
      (length_decimalDigits_le_iff (List.length_pos_of_ne_nil (decimalDigits_ne_nil _))).1 le_rfl
    rw [Nat.div_lt_iff_lt_mul hb] at hlt
    rw [← cast_tenTo, div_lt_iff₀ hbq]
    exact_mod_cast hlt
  next hlt =>
    set n := (b - 1) / a with hn
    rcases Nat.eq_zero_or_pos a with rfl | ha
    · simp only [Nat.cast_zero, zero_div]
      positivity
    obtain ⟨k, hk⟩ : ∃ k, (decimalDigits n).length = k + 1 :=
      ⟨_, (Nat.succ_pred_eq_of_pos (List.length_pos_of_ne_nil (decimalDigits_ne_nil n))).symm⟩
    have hpower : tenTo k ≤ n := by
      rcases Nat.eq_zero_or_pos k with rfl | hkpos
      · exact (Nat.div_pos_iff.2 ⟨ha, by omega⟩ : 0 < n)
      · rw [← Nat.not_lt, ← length_decimalDigits_le_iff hkpos]
        omega
    have hmul : tenTo k * a < b := by
      have : tenTo k * a ≤ b - 1 := (Nat.le_div_iff_mul_le ha).1 hpower
      omega
    have hmulq : (tenTo k * a : ℚ) < b := by exact_mod_cast hmul
    have hexponent : (1 : Int) - (decimalDigits n).length = -(k : Int) := by omega
    rw [hexponent, div_lt_iff₀ hbq, zpow_neg, ← cast_tenTo, inv_mul_eq_div,
      lt_div_iff₀ (by exact_mod_cast tenTo_pos k)]
    linarith

namespace Interval

theorem scale_pos (f : BinaryFormat) (p : Nat) : 0 < (Interval.of f p).scale := twoTo_pos _

theorem quarter (f : BinaryFormat) (p : Nat) :
    ((Interval.of f p).unit / (Interval.of f p).scale : ℚ) = 2 ^ ((f.split p).2 - 2) := by
  have h := twoTo_div_twoTo ((f.split p).2 - 2)
  rwa [neg_sub] at h

/-- The numbers that round to a pattern lie below the next one. -/
theorem high_le (f : BinaryFormat) (p : Nat) :
    ((Interval.of f p).high * ((Interval.of f p).unit / (Interval.of f p).scale) : ℚ) ≤
      f.value (p + 1) := by
  have hhigh : (Interval.of f p).high = 4 * (f.split p).1 + 2 := rfl
  have hpower : (2 : ℚ) ^ (f.split p).2 = 2 ^ ((f.split p).2 - 2) * 4 := by
    rw [show (4 : ℚ) = 2 ^ (2 : Int) by norm_num, ← zpow_add₀ two_ne_zero, sub_add_cancel]
  have hpos : (0 : ℚ) < 2 ^ ((f.split p).2 - 2) := by positivity
  rw [quarter, value_succ, hpower, hhigh]
  push_cast
  nlinarith

def holds (i : Interval) (e : Int) (c : Nat) : Bool :=
  let a := i.scale * tenTo e.toNat
  let b := i.unit * tenTo (-e).toNat
  if i.closed then i.low * b ≤ c * a ∧ c * a ≤ i.high * b
  else i.low * b < c * a ∧ c * a < i.high * b

theorem le_of_holds {i : Interval} {e : Int} {c : Nat} (h : i.holds e c = true) :
    c * (i.scale * tenTo e.toNat) ≤ i.high * (i.unit * tenTo (-e).toNat) := by
  simp only [holds] at h
  split at h
  · exact (of_decide_eq_true h).2
  · exact (of_decide_eq_true h).2.le

def below (i : Interval) (e : Int) : Nat :=
  i.value * (i.unit * tenTo (-e).toNat) / (i.scale * tenTo e.toNat)

theorem onGrid?_eq (i : Interval) (tie : Tie) (e : Int) : i.onGrid? tie e =
    match i.holds e (i.below e), i.holds e (i.below e + 1) with
    | false, false => none
    | true, false => some (i.below e)
    | false, true => some (i.below e + 1)
    | true, true =>
      match compare (2 * (i.value * (i.unit * tenTo (-e).toNat)))
        ((2 * i.below e + 1) * (i.scale * tenTo e.toNat)), tie with
      | .lt, _ => some (i.below e)
      | .gt, _ => some (i.below e + 1)
      | .eq, .up => some (i.below e + 1)
      | .eq, .even => some (if i.below e % 2 = 0 then i.below e else i.below e + 1) := rfl

/-- What is found on a grid is one of the two neighbours of the value and lies in the interval. -/
theorem onGrid?_eq_some {i : Interval} {tie : Tie} {e : Int} {c : Nat}
    (h : i.onGrid? tie e = some c) : c ≤ i.below e + 1 ∧ i.holds e c = true := by
  rw [onGrid?_eq] at h
  split at h
  next => cases h
  next hb _ =>
    cases h
    exact ⟨Nat.le_succ _, hb⟩
  next _ hn =>
    cases h
    exact ⟨le_rfl, hn⟩
  next hb hn =>
    have hc : c = i.below e ∨ c = i.below e + 1 := by
      split at h <;> grind
    obtain rfl | rfl := hc
    · exact ⟨Nat.le_succ _, hb⟩
    · exact ⟨le_rfl, hn⟩

theorem onGrid?_le {i : Interval} {tie : Tie} {e : Int} {c : Nat} (hscale : 0 < i.scale)
    (h : i.onGrid? tie e = some c) :
    (c * 10 ^ e : ℚ) ≤ i.high * (i.unit / i.scale) := by
  have hle := le_of_holds (onGrid?_eq_some h).2
  have hscaleq : (0 : ℚ) < i.scale := by exact_mod_cast hscale
  have htenq : (0 : ℚ) < tenTo (-e).toNat := by exact_mod_cast tenTo_pos _
  rw [← tenTo_div_tenTo, ← mul_div_assoc, ← mul_div_assoc, div_le_div_iff₀ htenq hscaleq]
  have hleq : (c * (i.scale * tenTo e.toNat) : ℚ) ≤ i.high * (i.unit * tenTo (-e).toNat) := by
    exact_mod_cast hle
  linarith

theorem onGrid?_le_tenTo {i : Interval} {tie : Tie} {e : Int} {c k : Nat} (hscale : 0 < i.scale)
    (hpoint : (i.value * (i.unit / i.scale) : ℚ) < 10 ^ (e + k)) (h : i.onGrid? tie e = some c) :
    c ≤ tenTo k := by
  have hscaleq : (0 : ℚ) < i.scale := by exact_mod_cast hscale
  have hbelow : i.below e < tenTo k := by
    rw [below, Nat.div_lt_iff_lt_mul (Nat.mul_pos hscale (tenTo_pos _))]
    have htenq : (0 : ℚ) < tenTo (-e).toNat := by exact_mod_cast tenTo_pos _
    rw [zpow_add₀ (by norm_num), ← cast_tenTo k, ← tenTo_div_tenTo e, ← mul_div_assoc,
      div_mul_eq_mul_div, div_lt_div_iff₀ hscaleq htenq] at hpoint
    have hq : (i.value * (i.unit * tenTo (-e).toNat) : ℚ) < tenTo k * (i.scale * tenTo e.toNat) := by
      linarith
    exact_mod_cast hq
  exact (onGrid?_eq_some h).1.trans hbelow

end Interval

/-- The shortest decimal of a pattern is on one of the grids of up to seventeen digits. -/
theorem shortest_cases (f : BinaryFormat) (tie : Tie) (p : Nat) :
    shortest f tie p = ⟨[], 0⟩ ∨ ∃ c e, c ≤ tenTo 17 ∧ shortest f tie p = ofScaled c e ∧
      (c * 10 ^ e : ℚ) ≤ f.value (p + 1) := by
  unfold shortest
  set i := Interval.of f p
  have hscale : 0 < i.scale := Interval.scale_pos f p
  have hpoint : (i.value * (i.unit / i.scale) : ℚ) < 10 ^ pointOf (i.value * i.unit) i.scale := by
    have h := pointOf_spec (a := i.value * i.unit) hscale
    push_cast at h
    rwa [← mul_div_assoc]
  set point := pointOf (i.value * i.unit) i.scale
  set found := (List.range 17).findSome? fun n =>
    (i.onGrid? tie (point - (n + 1 : Nat))).map fun c => ofScaled c (point - (n + 1 : Nat))
    with hfound
  cases h : found with
  | none => exact .inl (congrArg (Option.getD · ⟨[], 0⟩) h)
  | some d =>
    right
    obtain ⟨n, hn, hmap⟩ := List.exists_of_findSome?_eq_some (hfound.symm.trans h)
    obtain ⟨c, hc, rfl⟩ := Option.map_eq_some_iff.1 hmap
    have hpower : point - (n + 1 : Nat) + (n + 1 : Nat) = point := sub_add_cancel _ _
    refine ⟨c, _, ?_, congrArg (Option.getD · ⟨[], 0⟩) h, ?_⟩
    · have hdigits := Interval.onGrid?_le_tenTo hscale (by rwa [hpower]) hc
      exact hdigits.trans (Nat.pow_le_pow_right (by decide) (List.mem_range.1 hn))
    · exact (Interval.onGrid?_le hscale hc).trans (Interval.high_le f p)

theorem length_shortest_le (f : BinaryFormat) (tie : Tie) (p : Nat) :
    (shortest f tie p).digits.length ≤ 17 := by
  obtain h | ⟨c, e, hc, h, -⟩ := shortest_cases f tie p
  · rw [h]
    decide
  · rw [h]
    exact length_ofScaled_le e hc

theorem shortest_value_le (f : BinaryFormat) (tie : Tie) (p : Nat) :
    (shortest f tie p).value ≤ f.value (p + 1) := by
  obtain h | ⟨c, e, -, h, hle⟩ := shortest_cases f tie p
  · rw [h]
    simpa [value, ofDecimalDigits] using f.value_nonneg (p + 1)
  · rwa [h, value_ofScaled]

end AnnotationGraph.Decimal
