import AnnotationGraph.Json.Reader
import AnnotationGraph.Number.Reading
import AnnotationGraph.Number.Shortest
import Mathlib.Tactic.Ring

/-!
# Numerals read back

Decimal digits spell one number, a numeral with few digits is cut to the number of all of them, and
a numeral that is written in a JSON text is taken off it again as it was.

* `map_digitText_decimalDigits`, `ofDecimalDigits_decimalDigits`   the digits of a number and the
  number of the digits;
* `Numeral.cut_of_le`   the digits of a numeral as one word;
* `Json.takeDigits_append`   all digits in front of something else;
* `Json.takeNumeral?_text`   a numeral in front of a symbol that cannot belong to it.
-/

namespace AnnotationGraph

/-! ### Decimal digits -/

theorem digitOf_digitChar : ∀ d < 10, (digitOf d.digitChar).val = d := by decide

theorem digitOf_digitText (d : Fin 10) : digitOf (digitText d) = d :=
  Fin.ext (digitOf_digitChar d.val d.isLt)

theorem digitText_digitOf {c : Char} (h : c.isDigit) : digitText (digitOf c) = c := by
  obtain ⟨d, rfl⟩ : ∃ d : Fin 10, digitText d = c := by
    have hc : 48 ≤ c.toNat ∧ c.toNat ≤ 57 := by
      simpa [Char.isDigit, UInt32.le_iff_toNat_le] using h
    refine ⟨⟨c.toNat - 48, by omega⟩, Char.toNat_inj.1 ?_⟩
    have ht := Nat.toNat_digitChar_of_lt_ten (n := c.toNat - 48) (by omega)
    rw [digitText, ht]
    omega
  rw [digitOf_digitText]

theorem digitText_ne_minus : ∀ d : Fin 10, digitText d ≠ '-' := by decide

theorem map_digitText_decimalDigits (n : Nat) :
    (decimalDigits n).map digitText = Nat.toDigits 10 n := by
  rw [decimalDigits, List.map_map]
  refine List.map_congr_left (fun c hc => ?_) |>.trans (List.map_id _)
  exact digitText_digitOf (Nat.isDigit_of_mem_toDigits (by decide) (by decide) hc)

theorem decimalDigits_ne_nil (n : Nat) : decimalDigits n ≠ [] := by
  simp [decimalDigits, Nat.toDigits_ne_nil]

theorem toDigits_cons (n : Nat) : ∃ d cs, Nat.toDigits 10 n = digitText d :: cs := by
  cases hd : decimalDigits n with
  | nil => exact absurd hd (decimalDigits_ne_nil n)
  | cons d ds => exact ⟨d, ds.map digitText, by rw [← map_digitText_decimalDigits, hd, List.map_cons]⟩

theorem decimalDigits_of_lt {n : Nat} (h : n < 10) : decimalDigits n = [digitOf n.digitChar] := by
  rw [decimalDigits, Nat.toDigits_of_lt_base h, List.map_singleton]

theorem decimalDigits_of_le {n : Nat} (h : 10 ≤ n) :
    decimalDigits n = decimalDigits (n / 10) ++ [digitOf (n % 10).digitChar] := by
  rw [decimalDigits, Nat.toDigits_of_base_le (by decide) h, List.map_append, List.map_singleton,
    decimalDigits]

theorem ofDecimalDigits_append (n : Nat) (ds es : List (Fin 10)) :
    ofDecimalDigits n (ds ++ es) = ofDecimalDigits (ofDecimalDigits n ds) es :=
  List.foldl_append

theorem ofDecimalDigits_decimalDigits (n : Nat) : ofDecimalDigits 0 (decimalDigits n) = n := by
  induction n using Nat.strongRecOn with
  | ind n ih =>
    rcases Nat.lt_or_ge n 10 with h | h
    · rw [decimalDigits_of_lt h]
      simp [ofDecimalDigits, digitOf_digitChar n h]
    · rw [decimalDigits_of_le h, ofDecimalDigits_append, ih (n / 10) (by omega)]
      simp [ofDecimalDigits, digitOf_digitChar (n % 10) (by omega)]
      omega

theorem head?_toDigits (n : Nat) : (Nat.toDigits 10 n).head? = some '0' ↔ n = 0 := by
  induction n using Nat.strongRecOn with
  | ind n ih =>
    rcases Nat.lt_or_ge n 10 with h | h
    · simp [Nat.toDigits_of_lt_base h]
    · have hne : (Nat.toDigits 10 (n / 10)).head?.isSome := by
        simp [Nat.toDigits_ne_nil]
      rw [Nat.toDigits_of_base_le (by decide) h, List.head?_append, Option.or_of_isSome hne,
        ih (n / 10) (by omega)]
      omega

theorem length_decimalDigits_le_iff {n k : Nat} (hk : 0 < k) :
    (decimalDigits n).length ≤ k ↔ n < tenTo k := by
  rw [decimalDigits, List.length_map, Nat.length_toDigits_le_iff (by decide) hk]
  rfl

theorem tenTo_succ (n : Nat) : tenTo (n + 1) = 10 * tenTo n := Nat.pow_succ'

theorem tenTo_pos (n : Nat) : 0 < tenTo n := Nat.pow_pos (by decide)

theorem tenTo_mono {m n : Nat} (h : m ≤ n) : tenTo m ≤ tenTo n :=
  Nat.pow_le_pow_right (by decide) h

theorem ofDecimalDigits_cons (n : Nat) (d : Fin 10) (ds : List (Fin 10)) :
    ofDecimalDigits n (d :: ds) = ofDecimalDigits (10 * n + d.val) ds := rfl

theorem ofDecimalDigits_eq (n : Nat) (ds : List (Fin 10)) :
    ofDecimalDigits n ds = n * tenTo ds.length + ofDecimalDigits 0 ds := by
  induction ds generalizing n with
  | nil => simp [ofDecimalDigits, tenTo]
  | cons d ds ih =>
    rw [ofDecimalDigits_cons, ofDecimalDigits_cons, ih (10 * n + d.val), ih (10 * 0 + d.val),
      List.length_cons, tenTo_succ]
    ring

theorem ofDecimalDigits_lt (ds : List (Fin 10)) : ofDecimalDigits 0 ds < tenTo ds.length := by
  induction ds with
  | nil => exact tenTo_pos 0
  | cons d ds ih =>
    have hd : d.val * tenTo ds.length ≤ 9 * tenTo ds.length := Nat.mul_le_mul_right _ (by omega)
    rw [ofDecimalDigits_cons, Nat.mul_zero, Nat.zero_add, ofDecimalDigits_eq, List.length_cons,
      tenTo_succ]
    omega

theorem le_ofDecimalDigits (n : Nat) (ds : List (Fin 10)) : n ≤ ofDecimalDigits n ds := by
  rw [ofDecimalDigits_eq]
  exact (Nat.le_mul_of_pos_right _ (tenTo_pos _)).trans (Nat.le_add_right _ _)

theorem ofDecimalDigits_replicate_zero (n k : Nat) :
    ofDecimalDigits n (List.replicate k zeroDigit) = n * tenTo k := by
  induction k generalizing n with
  | zero => simp [ofDecimalDigits, tenTo]
  | succ k ih =>
    rw [List.replicate_succ, ofDecimalDigits_cons, ih, tenTo_succ]
    simp only [show zeroDigit.val = 0 from rfl, Nat.add_zero]
    ring

/-! ### Digits of a word -/

theorem appendWithin_of_le {bound n : Nat} {ds : List (Fin 10)}
    (h : ofDecimalDigits n ds ≤ bound) : appendWithin bound n ds = (ofDecimalDigits n ds, []) := by
  induction ds generalizing n with
  | nil => rfl
  | cons d ds ih =>
    rw [ofDecimalDigits_cons] at h ⊢
    have hnext : 10 * n + d.val ≤ bound := (le_ofDecimalDigits _ ds).trans h
    simp only [appendWithin, hnext, ite_true, ih h]

theorem appendWithin_le {bound n : Nat} (ds : List (Fin 10)) (h : n ≤ bound) :
    (appendWithin bound n ds).1 ≤ bound := by
  induction ds generalizing n with
  | nil => exact h
  | cons d ds ih =>
    simp only [appendWithin]
    split
    next hnext => exact ih hnext
    next => exact h

theorem Numeral.cut_le (n : Numeral) : n.cut.1 ≤ maxWord :=
  appendWithin_le _ (appendWithin_le _ (Nat.zero_le _))

/-- A numeral whose digits fit in a word is cut to the number of all its digits. -/
theorem Numeral.cut_of_le {n : Numeral} (h : ofDecimalDigits n.whole n.fraction ≤ maxWord) :
    n.cut = (ofDecimalDigits n.whole n.fraction, n.exponent.getD 0 - n.fraction.length) := by
  have hwhole : ofDecimalDigits 0 (decimalDigits n.whole) ≤ maxWord := by
    rw [ofDecimalDigits_decimalDigits]
    exact (le_ofDecimalDigits _ _).trans h
  simp [Numeral.cut, appendWithin_of_le hwhole, ofDecimalDigits_decimalDigits,
    appendWithin_of_le h]

/-! ### Digits in a text -/

namespace Input

def ofChars (cs : List Char) : Input := cs.map .char

@[simp] theorem ofChars_nil : ofChars [] = [] := rfl

@[simp] theorem ofChars_cons (c : Char) (cs : List Char) :
    ofChars (c :: cs) = .char c :: ofChars cs := rfl

@[simp] theorem ofChars_append (cs ds : List Char) :
    ofChars (cs ++ ds) = ofChars cs ++ ofChars ds := List.map_append

@[simp] theorem length_ofChars (cs : List Char) : (ofChars cs).length = cs.length :=
  List.length_map _

theorem ofText_ofList (cs : List Char) : ofText (String.ofList cs) = ofChars cs := by
  rw [ofText, String.toList_ofList, ofChars]

end Input

namespace Json

open Input (ofChars)

theorem digit?_digitText (d : Fin 10) : digit? (.char (digitText d)) = some d := by
  revert d; decide

def NoDigit (input : Input) : Prop := ∀ s ∈ input.head?, digit? s = none

@[simp] theorem noDigit_nil : NoDigit [] := by simp [NoDigit]

@[simp] theorem noDigit_cons {s : Symbol} {input : Input} :
    NoDigit (s :: input) ↔ digit? s = none := by simp [NoDigit]

theorem takeDigits_of_noDigit {rest : Input} (h : NoDigit rest) : takeDigits rest = ([], rest) := by
  cases rest with
  | nil => rfl
  | cons s rest => rw [takeDigits, noDigit_cons.1 h]

theorem takeDigits_append (ds : List (Fin 10)) {rest : Input} (h : NoDigit rest) :
    takeDigits (ofChars (ds.map digitText) ++ rest) = (ds, rest) := by
  induction ds with
  | nil => exact takeDigits_of_noDigit h
  | cons d ds ih =>
    rw [List.map_cons, Input.ofChars_cons, List.cons_append, takeDigits, digit?_digitText, ih]

theorem takeDigits_toDigits (n : Nat) {rest : Input} (h : NoDigit rest) :
    takeDigits (ofChars (Nat.toDigits 10 n) ++ rest) = (decimalDigits n, rest) := by
  rw [← map_digitText_decimalDigits, takeDigits_append _ h]

/-! ### Numerals in a text -/

theorem takeWhole?_toDigits (n : Nat) {rest : Input} (h : NoDigit rest) :
    takeWhole? (ofChars (Nat.toDigits 10 n) ++ rest) = some (n, rest) := by
  by_cases hn : n = 0
  · subst hn
    rfl
  · unfold takeWhole?
    split
    next tail heq =>
      refine absurd ((head?_toDigits n).1 ?_) hn
      cases hd : Nat.toDigits 10 n with
      | nil => exact absurd hd Nat.toDigits_ne_nil
      | cons c cs =>
        rw [hd] at heq
        simp only [Input.ofChars_cons, List.cons_append, List.cons.injEq, Symbol.char.injEq] at heq
        simp [heq.1]
    next =>
      rw [takeDigits_toDigits n h]
      cases hd : decimalDigits n with
      | nil => exact absurd hd (decimalDigits_ne_nil n)
      | cons d ds => simp [← hd, ofDecimalDigits_decimalDigits]

def fractionChars (ds : List (Fin 10)) : List Char :=
  if ds.isEmpty then [] else '.' :: ds.map digitText

theorem takeFraction?_fractionChars (ds : List (Fin 10)) {rest : Input} (h : NoDigit rest)
    (hp : rest.head? ≠ some (.char '.')) :
    takeFraction? (ofChars (fractionChars ds) ++ rest) = some (ds, rest) := by
  cases ds with
  | nil =>
    unfold takeFraction?
    split
    next heq => exact absurd (congrArg List.head? heq) hp
    next => rfl
  | cons d ds =>
    have hd := takeDigits_append (d :: ds) h
    simp only [fractionChars, List.isEmpty_cons, Bool.false_eq_true, ite_false, Input.ofChars_cons,
      List.cons_append, takeFraction?, hd]

def exponentChars : Option Int → List Char
  | none => []
  | some e => exponentStyle.text e

theorem takeExponent?_exponentChars (e : Option Int) {rest : Input} (h : NoDigit rest)
    (he : rest.head? ≠ some (.char 'e')) (hE : rest.head? ≠ some (.char 'E')) :
    takeExponent? (ofChars (exponentChars e) ++ rest) = some (e, rest) := by
  cases e with
  | none =>
    unfold takeExponent?
    split
    next c tail heq =>
      have hc : ¬(c = 'e' ∨ c = 'E') := by
        rintro (rfl | rfl)
        · exact he (congrArg List.head? heq)
        · exact hE (congrArg List.head? heq)
      rw [if_neg hc, ← heq]
      rfl
    next => rfl
  | some e =>
    have hd := takeDigits_toDigits e.natAbs h
    have hv := ofDecimalDigits_decimalDigits e.natAbs
    cases hds : decimalDigits e.natAbs with
    | nil => exact absurd hds (decimalDigits_ne_nil _)
    | cons d ds =>
      rw [hds] at hd hv
      by_cases hneg : e < 0
      · have hs : -(e.natAbs : Int) = e := by omega
        simp only [exponentChars, ExponentStyle.text, exponentStyle, takeExponent?, takeSign, hneg,
          ↓reduceIte, List.cons_append, List.nil_append, Input.ofChars_cons, Char.reduceEq,
          or_false, hd, hv, hs]
      · have hs : (e.natAbs : Int) = e := by omega
        simp only [exponentChars, ExponentStyle.text, exponentStyle, takeExponent?, takeSign, hneg,
          ↓reduceIte, List.cons_append, List.nil_append, Input.ofChars_cons, Char.reduceEq,
          or_false, Bool.false_eq_true, hd, hv, hs]

theorem numeral_text (n : Numeral) :
    n.text exponentStyle =
      (if n.negative then ['-'] else []) ++
        (Nat.toDigits 10 n.whole ++ (fractionChars n.fraction ++ exponentChars n.exponent)) := by
  cases n with
  | mk negative whole fraction exponent =>
    cases exponent <;> simp [Numeral.text, fractionChars, exponentChars]

/-- What comes first cannot belong to a numeral before it. -/
structure NumeralEnds (rest : Input) : Prop where
  digit : NoDigit rest
  point : rest.head? ≠ some (.char '.')
  mark : rest.head? ≠ some (.char 'e') ∧ rest.head? ≠ some (.char 'E')

theorem noDigit_exponentChars (e : Option Int) {rest : Input} (h : NumeralEnds rest) :
    NoDigit (ofChars (exponentChars e) ++ rest) ∧
      (ofChars (exponentChars e) ++ rest).head? ≠ some (.char '.') := by
  cases e with
  | none => exact ⟨h.digit, h.point⟩
  | some e => exact ⟨by simp [exponentChars, ExponentStyle.text, exponentStyle, digit?],
      by simp [exponentChars, ExponentStyle.text, exponentStyle]⟩

theorem noDigit_fractionChars (ds : List (Fin 10)) {rest : Input} (h : NoDigit rest) :
    NoDigit (ofChars (fractionChars ds) ++ rest) := by
  cases ds with
  | nil => exact h
  | cons d ds => simp [fractionChars, digit?]

/-- A numeral is taken off a text as it was written. -/
theorem takeNumeral?_text (n : Numeral) {rest : Input} (h : NumeralEnds rest) :
    takeNumeral? (ofChars (n.text exponentStyle) ++ rest) = some (n, rest) := by
  obtain ⟨negative, whole, fraction, exponent⟩ := n
  obtain ⟨hexp, hpoint⟩ := noDigit_exponentChars exponent h
  have hwhole := takeWhole?_toDigits whole (noDigit_fractionChars fraction hexp)
  have hfraction := takeFraction?_fractionChars fraction hexp hpoint
  have hexponent := takeExponent?_exponentChars exponent h.digit h.mark.1 h.mark.2
  rw [numeral_text]
  cases negative with
  | true => simp [takeNumeral?, hwhole, hfraction, hexponent]
  | false =>
    simp only [Bool.false_eq_true, ite_false, List.nil_append, Input.ofChars_append,
      List.append_assoc]
    obtain ⟨d, cs, hd⟩ := toDigits_cons whole
    have hminus : digitText d ≠ '-' := digitText_ne_minus d
    rw [hd, Input.ofChars_cons, List.cons_append] at hwhole
    simp [takeNumeral?, hd, hwhole, hfraction, hexponent, hminus]

end Json

end AnnotationGraph
