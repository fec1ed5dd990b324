import AnnotationGraph.Program.Writer
import AnnotationGraph.Proofs.Decimals

/-!
# Finite numbers are written and read

A finite number of either format is written as a numeral that reads as a finite number again, a
number that is not finite is written as null and does not read.  The reader rounds both operands of
a product, so the shortest decimal of a great number may be read as a neighbour of it; that it is
never read as infinity is checked for the seventeen greatest powers of ten, the order of the
patterns doing the rest.

* `Binary.Finite`                                  neither infinite nor no number;
* `Binary64.finite_of_ofNumeral?`                  numerals are read as finite numbers;
* `Binary64.isSome_ofNumeral?_numeral`             decimals up to the greatest number are read;
* `Binary64.isSome_ofJson?_toJson`, `Binary32.isSome_ofJson?_toJson`   what is written reads exactly
  if it is finite.
-/

namespace AnnotationGraph

/-! ### Patterns -/

namespace Binary

variable {f : BinaryFormat}

/-- A number that is neither infinite nor no number. -/
def Finite (x : Binary f) : Prop := x.magnitude < f.infinity

/-- The greatest magnitude, or its negative. -/
def Infinite (x : Binary f) : Prop := x.magnitude = f.infinity

instance (x : Binary f) : Decidable x.Finite := inferInstanceAs (Decidable (_ < _))

instance (x : Binary f) : Decidable x.Infinite := inferInstanceAs (Decidable (_ = _))

theorem Finite.not_infinite {x : Binary f} (h : x.Finite) : ¬x.Infinite := Nat.ne_of_lt h

theorem magnitude_ofMagnitude (hf : 0 < f.width) (negative : Bool) {p : Nat}
    (hp : p < twoTo (f.width - 1)) : (ofMagnitude negative p : Binary f).magnitude = p := by
  have hwidth : 2 ^ f.width = 2 * twoTo (f.width - 1) := by
    obtain ⟨w, hw⟩ : ∃ w, f.width = w + 1 := ⟨_, (Nat.succ_pred_eq_of_pos hf).symm⟩
    rw [hw, Nat.add_sub_cancel]
    exact Nat.pow_succ'
  rw [magnitude, ofMagnitude, BitVec.toNat_ofNat, hwidth]
  cases negative with
  | true =>
    rw [if_pos rfl, Nat.mod_eq_of_lt (a := _ + p) (by omega), Nat.add_mod_left,
      Nat.mod_eq_of_lt hp]
  | false =>
    rw [if_neg Bool.false_ne_true, Nat.zero_add, Nat.mod_eq_of_lt (a := p) (by omega),
      Nat.mod_eq_of_lt hp]

theorem numeral?_eq_none (l : Layout) {x : Binary f} (h : ¬x.Finite) : x.numeral? l = none := by
  rw [Finite, Nat.not_lt] at h
  rw [numeral?, datum]
  rcases h.lt_or_eq with hlt | heq
  · rw [if_pos hlt]
  · rw [if_neg heq.not_lt, if_pos heq.symm]

theorem numeral?_of_finite (l : Layout) {x : Binary f} (h : x.Finite) :
    x.numeral? l = some ⟨x.negative, 0, [zeroDigit], none⟩ ∨
      x.numeral? l = some (l.numeral x.negative (.shortest f l.tie x.magnitude)) := by
  rw [Finite] at h
  rw [numeral?, datum, if_neg h.not_gt, if_neg h.ne]
  by_cases hzero : x.magnitude = 0
  · rw [if_pos hzero]
    exact .inl rfl
  · rw [if_neg hzero]
    exact .inr rfl

end Binary

/-! ### What the reader gives is finite -/

namespace Binary64

open BinaryFormat

theorem powerOfTen_mono {m n : Nat} (h : m ≤ n) : powerOfTen m ≤ powerOfTen n := by
  refine double.nearest_mono Nat.one_pos Nat.one_pos ?_
  have hpow : (tenTo m : ℚ) ≤ tenTo n := by
    exact_mod_cast tenTo_mono h
  gcongr

theorem nearest_natCast_mono {a b : Nat} (h : a ≤ b) : double.nearest a 1 ≤ double.nearest b 1 := by
  refine double.nearest_mono Nat.one_pos Nat.one_pos ?_
  gcongr

theorem divide_powerOfTen_le {x x' : Nat} (h : x ≤ x') (n : Nat) :
    double.divide x (powerOfTen n) ≤ double.divide x' (powerOfTen 0) :=
  double.divide_mono h (powerOfTen_mono (Nat.zero_le n)) (by decide)

theorem divideByTenTo_lt {x : Nat} (h : x ≤ double.nearest maxWord 1) (n : Nat) :
    divideByTenTo x n < double.infinity := by
  have hone := divide_powerOfTen_le h
  have honce : double.divide (double.nearest maxWord 1) (powerOfTen 0) < double.infinity := by
    decide
  have htwice : double.divide (double.divide (double.nearest maxWord 1) (powerOfTen 0))
      (powerOfTen 0) < double.infinity := by
    decide
  simp only [divideByTenTo]
  split
  · exact (hone n).trans_lt honce
  · split
    · exact (divide_powerOfTen_le (hone _) _).trans_lt htwice
    · decide

theorem lt_of_magnitude? {c : Nat} {e : Int} {p : Nat} (hc : c ≤ maxWord)
    (h : magnitude? c e = some p) : p < double.infinity := by
  simp only [magnitude?] at h
  split at h
  · cases h
    exact divideByTenTo_lt (nearest_natCast_mono hc) _
  · split at h
    · cases h
      decide
    · split at h
      · simpa using (Option.filter_eq_some_iff.1 h).2
      · cases h

theorem finite_of_ofNumeral? {n : Numeral} {x : Binary64} (h : ofNumeral? n = some x) :
    x.Finite := by
  obtain ⟨p, hp, rfl⟩ := Option.map_eq_some_iff.1 h
  have hlt := lt_of_magnitude? n.cut_le hp
  have hwidth : p < twoTo (double.width - 1) := hlt.trans (by decide)
  rw [Binary.Finite, Binary.magnitude_ofMagnitude (by decide) _ hwidth]
  exact hlt

theorem finite_of_ofJson? {json : Json} {x : Binary64} (h : Binary64.ofJson? json = some x) :
    x.Finite := by
  cases json with
  | number n => exact finite_of_ofNumeral? h
  | _ => cases h

/-! ### Great decimals are read -/

def greatest : Nat := (twoTo 53 - 1) * twoTo 971

theorem value_greatest : double.value (double.infinity - 1) = greatest := by
  have hsplit : double.split (double.infinity - 1) = (twoTo 53 - 1, ((971 : Nat) : Int)) := by
    decide
  exact double.value_of_split hsplit

theorem greatest_bounds :
    17976931348623157 * tenTo 292 ≤ greatest ∧ greatest < tenTo 309 := by
  decide +kernel

/-- Next to the greatest number the product of two rounded operands stays finite. -/
theorem multiply_greatest_lt : ∀ i < 17,
    double.multiply (double.nearest (greatest / tenTo (292 + i)) 1) (powerOfTen (292 + i)) <
      double.infinity := by
  decide +kernel

theorem multiply_lt {c n : Nat} (hc : c ≤ tenTo 17) (hn : n ≤ maxTenExponent)
    (h : c * tenTo n ≤ greatest) :
    double.multiply (double.nearest c 1) (powerOfTen n) < double.infinity := by
  rcases Nat.lt_or_ge n 292 with hsmall | hgreat
  · have htop : double.multiply (double.nearest (tenTo 17) 1) (powerOfTen 291) < double.infinity := by
      decide +kernel
    exact (double.multiply_mono (nearest_natCast_mono hc) (powerOfTen_mono (by omega))).trans_lt htop
  · obtain ⟨i, rfl⟩ := Nat.exists_eq_add_of_le hgreat
    have hle : c ≤ greatest / tenTo (292 + i) := (Nat.le_div_iff_mul_le (tenTo_pos _)).2 h
    have htop := multiply_greatest_lt i (by rw [maxTenExponent] at hn; omega)
    exact (double.multiply_mono (nearest_natCast_mono hle) le_rfl).trans_lt htop

theorem isSome_magnitude? {c : Nat} {e : Int} (hc : c ≤ tenTo 17)
    (h : (c * 10 ^ e : ℚ) ≤ greatest) : (magnitude? c e).isSome := by
  simp only [magnitude?]
  split
  next => rfl
  next he =>
    split
    next => rfl
    next hx =>
      obtain ⟨n, rfl⟩ := Int.eq_ofNat_of_zero_le (Int.not_lt.1 he)
      have hpos : 0 < c := Nat.pos_of_ne_zero fun h0 => hx (by rw [h0]; rfl)
      have hnat : c * tenTo n ≤ greatest := by
        rw [← Decimal.cast_tenTo] at h
        exact_mod_cast h
      have hn : n ≤ maxTenExponent := by
        by_contra! hlt
        have hten : tenTo 309 ≤ tenTo n := tenTo_mono hlt
        have htop := greatest_bounds.2
        have := Nat.le_mul_of_pos_left (tenTo n) hpos
        omega
      have hlt := multiply_lt hc hn hnat
      rw [if_pos (by exact_mod_cast hn)]
      simpa [Option.filter] using hlt

/-! ### Layouts -/

def orZero (ds : List (Fin 10)) : List (Fin 10) := if ds.isEmpty then [zeroDigit] else ds

theorem length_orZero_le {ds : List (Fin 10)} {k : Nat} (h : ds.length ≤ k + 1) :
    (orZero ds).length ≤ k + 1 := by
  unfold orZero
  split
  · simp
  · exact h

theorem orZero_ne_nil (ds : List (Fin 10)) : orZero ds ≠ [] := by
  unfold orZero
  split
  next => simp
  next h => simpa using h

theorem plain_digits_lt {l : Layout} (negative : Bool) {d : Decimal} (hlen : d.digits.length ≤ 17)
    (hpoint : d.point ≤ 16) (hplain : l.leastPoint ≤ d.point ∧ d.point ≤ l.greatestPoint) :
    ofDecimalDigits (l.numeral negative d).whole (l.numeral negative d).fraction < tenTo 17 ∧
      (l.numeral negative d).fraction ≠ [] ∧ (l.numeral negative d).exponent = none := by
  have hnumeral : l.numeral negative d =
      { negative
        whole := ofDecimalDigits 0 (d.digits.take d.point.toNat ++
          List.replicate (d.point.toNat - d.digits.length) zeroDigit)
        fraction := List.replicate (-d.point).toNat zeroDigit ++
          orZero (d.digits.drop d.point.toNat)
        exponent := none } := by
    rw [Layout.numeral, if_pos hplain]
    rfl
  rw [hnumeral]
  refine ⟨?_, by simp [orZero_ne_nil], rfl⟩
  rcases Int.lt_or_le 0 d.point with hpos | hneg
  · have hzeros : (-d.point).toNat = 0 := by omega
    rw [hzeros, List.replicate_zero, List.nil_append, ← ofDecimalDigits_append]
    refine (ofDecimalDigits_lt _).trans_le (tenTo_mono ?_)
    have hrest : (orZero (d.digits.drop d.point.toNat)).length ≤ 16 - d.point.toNat + 1 :=
      length_orZero_le (by rw [List.length_drop]; omega)
    simp only [List.length_append, List.length_take, List.length_replicate]
    omega
  · have hplaces : d.point.toNat = 0 := by omega
    rw [hplaces]
    simp only [List.take_zero, List.nil_append, Nat.zero_sub, List.replicate_zero,
      ofDecimalDigits_append, ofDecimalDigits_replicate_zero, List.drop_zero]
    have hz : ofDecimalDigits 0 [] * tenTo (-d.point).toNat = 0 := Nat.zero_mul _
    rw [hz]
    exact (ofDecimalDigits_lt _).trans_le (tenTo_mono (length_orZero_le hlen))

theorem scientific_digits {l : Layout} (hl : l.fullMantissa = false) (negative : Bool)
    {d : Decimal} (hplain : ¬(l.leastPoint ≤ d.point ∧ d.point ≤ l.greatestPoint)) :
    ofDecimalDigits (l.numeral negative d).whole (l.numeral negative d).fraction =
        ofDecimalDigits 0 d.digits ∧
      (l.numeral negative d).fraction.length = d.digits.length - 1 ∧
      (l.numeral negative d).exponent = some (d.point - 1) := by
  have hnumeral : l.numeral negative d =
      { negative
        whole := ofDecimalDigits 0 (d.digits.take 1)
        fraction := d.digits.drop 1
        exponent := some (d.point - 1) } := by
    rw [Layout.numeral, if_neg hplain, hl, if_neg Bool.false_ne_true]
  rw [hnumeral]
  refine ⟨?_, List.length_drop, rfl⟩
  rw [← ofDecimalDigits_append, List.take_append_drop]

/-- Digits after a point are divided by a power of ten, which leaves any number finite. -/
theorem isSome_ofNumeral?_of_fraction {n : Numeral}
    (hdigits : ofDecimalDigits n.whole n.fraction ≤ maxWord) (hfraction : n.fraction ≠ [])
    (hexponent : n.exponent = none) : (ofNumeral? n).isSome := by
  have hlength := List.length_pos_of_ne_nil hfraction
  have hnegative : (none : Option Int).getD 0 - (n.fraction.length : Int) < 0 := by
    simpa using hlength
  rw [ofNumeral?, Option.isSome_map, Numeral.cut_of_le hdigits, hexponent]
  simp only [magnitude?, if_pos hnegative, Option.isSome_some]

/-- A decimal up to the greatest number is read as it is written in a layout. -/
theorem isSome_ofNumeral?_numeral {l : Layout} (hpoint : l.greatestPoint ≤ 16)
    (hl : l.fullMantissa = false) (negative : Bool) {d : Decimal} (hlen : d.digits.length ≤ 17)
    (hvalue : d.value ≤ greatest) : (ofNumeral? (l.numeral negative d)).isSome := by
  have hword : tenTo 17 ≤ maxWord := by decide
  by_cases hplain : l.leastPoint ≤ d.point ∧ d.point ≤ l.greatestPoint
  · obtain ⟨hdigits, hfraction, hexponent⟩ :=
      plain_digits_lt negative hlen (hplain.2.trans hpoint) hplain
    exact isSome_ofNumeral?_of_fraction (hdigits.le.trans hword) hfraction hexponent
  · obtain ⟨hdigits, hfraction, hexponent⟩ := scientific_digits hl negative hplain
    have hlt : ofDecimalDigits 0 d.digits < tenTo 17 :=
      (ofDecimalDigits_lt _).trans_le (tenTo_mono hlen)
    have hsame : (ofDecimalDigits 0 d.digits * 10 ^ (d.point - 1 - (d.digits.length - 1 : Nat)) : ℚ)
        = d.value := by
      rw [Decimal.value]
      cases d.digits with
      | nil => simp [ofDecimalDigits]
      | cons first rest =>
        have hpower : d.point - 1 - ((first :: rest).length - 1 : Nat) =
            d.point - (first :: rest).length := by
          rw [List.length_cons]
          omega
        rw [hpower]
    rw [ofNumeral?, Option.isSome_map, Numeral.cut_of_le (hdigits ▸ hlt.le.trans hword), hdigits,
      hfraction, hexponent]
    exact isSome_magnitude? hlt.le (hsame.trans_le hvalue)

end Binary64

/-! ### What is written -/

namespace Binary

variable {f : BinaryFormat}

theorem integer?_eq_none {n : Numeral} (h : n.fraction ≠ [] ∨ n.exponent ≠ none) :
    n.integer? = none := by
  obtain ⟨negative, whole, fraction, exponent⟩ := n
  cases fraction <;> cases exponent <;> simp_all [Numeral.integer?]

theorem exists_numeral? {l : Layout} (hpoint : l.greatestPoint ≤ 16) (hl : l.fullMantissa = false)
    (hvalue : ∀ p < f.infinity, (Decimal.shortest f l.tie p).value ≤ Binary64.greatest)
    {x : Binary f} (h : x.Finite) :
    ∃ n, x.toJson l = .number n ∧ n.integer? = none ∧ (Binary64.ofNumeral? n).isSome := by
  obtain hn | hn := x.numeral?_of_finite l h
  · exact ⟨_, by rw [toJson, hn], rfl,
      Binary64.isSome_ofNumeral?_of_fraction (Nat.zero_le _) (List.cons_ne_nil _ _) rfl⟩
  · refine ⟨_, by rw [toJson, hn], integer?_eq_none ?_, ?_⟩
    · by_cases hplain : l.leastPoint ≤ (Decimal.shortest f l.tie x.magnitude).point ∧
        (Decimal.shortest f l.tie x.magnitude).point ≤ l.greatestPoint
      · exact .inl (Binary64.plain_digits_lt _ (Decimal.length_shortest_le f l.tie _)
          (hplain.2.trans hpoint) hplain).2.1
      · refine .inr ?_
        rw [(Binary64.scientific_digits hl _ hplain).2.2]
        exact Option.some_ne_none _
    · exact Binary64.isSome_ofNumeral?_numeral hpoint hl _ (Decimal.length_shortest_le f l.tie _)
        (hvalue _ h)

theorem toJson_of_not_finite (l : Layout) {x : Binary f} (h : ¬x.Finite) : x.toJson l = .null := by
  rw [toJson, numeral?_eq_none l h]

end Binary

namespace Binary64

open BinaryFormat

theorem shortest_greatest_le :
    (Decimal.shortest double .even (double.infinity - 1)).value ≤ greatest := by
  have hshortest : Decimal.shortest double .even (double.infinity - 1) =
      ⟨[1, 7, 9, 7, 6, 9, 3, 1, 3, 4, 8, 6, 2, 3, 1, 5, 7], 309⟩ := by decide +kernel
  have hdigits : ofDecimalDigits 0 [1, 7, 9, 7, 6, 9, 3, 1, 3, 4, 8, 6, 2, 3, 1, 5, 7] =
      17976931348623157 := by decide
  have hpower : (10 : ℚ) ^ ((309 : Int) - (17 : Nat)) = tenTo 292 := (Decimal.cast_tenTo 292).symm
  rw [hshortest, Decimal.value, hdigits]
  calc _ = ((17976931348623157 * tenTo 292 : Nat) : ℚ) := by
        rw [Nat.cast_mul, ← hpower]
        rfl
    _ ≤ greatest := Nat.cast_le.2 greatest_bounds.1

theorem shortest_le_greatest {p : Nat} (h : p < double.infinity) :
    (Decimal.shortest double .even p).value ≤ greatest := by
  -- a shortest decimal may lie above its number, but not above the next one
  rcases (Nat.le_sub_one_of_lt h).lt_or_eq with hlt | rfl
  · rw [← value_greatest]
    exact (Decimal.shortest_value_le double .even p).trans (double.value_mono hlt)
  · exact shortest_greatest_le

theorem isSome_ofJson?_toJson (x : Binary64) :
    (Binary64.ofJson? (x.toJson doubleLayout)).isSome ↔ x.Finite := by
  constructor
  · intro h
    by_contra hx
    rw [x.toJson_of_not_finite doubleLayout hx] at h
    cases h
  · intro h
    obtain ⟨n, hn, -, hread⟩ := Binary.exists_numeral? (l := doubleLayout) (by decide) rfl
      (fun p => shortest_le_greatest) h
    rw [hn]
    exact hread

end Binary64

namespace Binary32

open BinaryFormat

/-- The first power of two without a pattern is far below the greatest number of 64 bits. -/
theorem value_infinity_le : single.value single.infinity ≤ Binary64.greatest := by
  have hsplit : single.split single.infinity = (twoTo 23, ((105 : Nat) : Int)) := by decide
  have hle : twoTo 23 * twoTo 105 ≤ Binary64.greatest :=
    Nat.mul_le_mul (by decide) (twoTo_mono (by decide))
  rw [single.value_of_split hsplit]
  exact Nat.cast_le.2 hle

theorem shortest_le_greatest {p : Nat} (h : p < single.infinity) :
    (Decimal.shortest single .even p).value ≤ Binary64.greatest :=
  (Decimal.shortest_value_le single .even p).trans
    ((single.value_mono h).trans value_infinity_le)

theorem isSome_ofJson?_toJson (x : Binary32) :
    (Binary32.ofJson? (x.toJson singleLayout)).isSome ↔ x.Finite := by
  constructor
  · intro h
    by_contra hx
    rw [x.toJson_of_not_finite singleLayout hx] at h
    cases h
  · intro h
    obtain ⟨n, hn, hinteger, hread⟩ := Binary.exists_numeral? (l := singleLayout) (by decide) rfl
      (fun p => shortest_le_greatest) h
    rw [hn, Binary32.ofJson?, hinteger]
    rwa [Option.filter_none, Option.isSome_map]

/-- A number of 32 bits is never read as no number, but it may be infinite. -/
theorem finite_or_infinite_of_ofJson? {json : Json} {x : Binary32}
    (h : Binary32.ofJson? json = some x) : x.Finite ∨ x.Infinite := by
  obtain ⟨negative, a, b, rfl⟩ : ∃ negative a b,
      x = Binary.ofMagnitude negative (single.nearest a b) := by
    unfold Binary32.ofJson? at h
    split at h
    next n =>
      split at h
      next i _ => exact ⟨_, _, _, (Option.some.inj h).symm⟩
      next =>
        obtain ⟨y, -, rfl⟩ := Option.map_eq_some_iff.1 h
        exact ⟨_, _, _, rfl⟩
    next => cases h
  have hle := single.nearest_le_infinity a b
  have hwidth : single.nearest a b < twoTo (single.width - 1) := hle.trans_lt (by decide)
  rw [Binary.Finite, Binary.Infinite, Binary.magnitude_ofMagnitude (by decide) _ hwidth]
  exact hle.lt_or_eq

end Binary32

end AnnotationGraph
