import AnnotationGraph.Proofs.Numerals

/-!
# JSON texts read back

Every JSON value is what its compact spelling spells: a reader that is handed the text of a phrase
followed by something else gives the phrase and leaves the rest.  The induction follows the spelling,
one lemma for each of its three functions.

* `Json.pieceOf`              how a character is written in a string;
* `Json.takeString?_quote`    a string, up to its closing quote;
* `Json.takeValue?_compact`   a value, in front of what may follow one;
* `Json.read?_compact`        a whole text.
-/

namespace AnnotationGraph.Json

open Input (ofChars)

/-! ### Strings -/

theorem takePieces?_close (rest : Input) : takePieces? (.char '"' :: rest) = some ([], rest) := by
  rw [takePieces?.eq_def]
  rfl

theorem takePieces?_plain {c : Char} (hq : c ≠ '"') (hb : c ≠ '\\') (hc : 32 ≤ c.toNat)
    (rest : Input) :
    takePieces? (.char c :: rest) = (takePieces? rest).map fun (ps, rest) => (.char c :: ps, rest) := by
  rw [takePieces?.eq_def]
  simp only [hq, hb, ite_false, Nat.not_lt.2 hc]

theorem takePieces?_letter {e d : Char} (he : escaped? e = some d) (rest : Input) :
    takePieces? (.char '\\' :: .char e :: rest) =
      (takePieces? rest).map fun (ps, rest) => (.char d :: ps, rest) := by
  have hu : e ≠ 'u' := by
    rintro rfl
    cases he
  rw [takePieces?.eq_def]
  simp [he, hu]

theorem takePieces?_unit {a b c d : Char} {n : Nat} (hn : codeUnit? a b c d = some n) (rest : Input) :
    takePieces? (.char '\\' :: .char 'u' :: .char a :: .char b :: .char c :: .char d :: rest) =
      (takePieces? rest).map fun (ps, rest) => (.unit n :: ps, rest) := by
  rw [takePieces?.eq_def]
  simp [hn]

theorem hexValue?_hexDigit : ∀ n < 16, hexValue? (hexDigit n) = some n := by decide

def lettered : List Char := ['"', '\\', '\n', '\r', '\t', '\x08', '\x0c']

/-- A character of a string stands for itself or is given by its code unit. -/
def pieceOf (c : Char) : Piece :=
  if c.toNat < 32 ∧ c ∉ lettered then .unit c.toNat else .char c

theorem escape_of_mem_lettered {c : Char} (h : c ∈ lettered) :
    ∃ e, escape c = ['\\', e] ∧ escaped? e = some c := by
  simp only [lettered, List.mem_cons, List.not_mem_nil, or_false] at h
  obtain rfl | rfl | rfl | rfl | rfl | rfl | rfl := h
  · exact ⟨'"', rfl, rfl⟩
  · exact ⟨'\\', rfl, rfl⟩
  · exact ⟨'n', rfl, rfl⟩
  · exact ⟨'r', rfl, rfl⟩
  · exact ⟨'t', rfl, rfl⟩
  · exact ⟨'b', rfl, rfl⟩
  · exact ⟨'f', rfl, rfl⟩

theorem escape_of_not_mem_lettered {c : Char} (h : c ∉ lettered) :
    escape c = if c.toNat < 32 then
      ['\\', 'u', '0', '0', hexDigit (c.toNat / 16), hexDigit (c.toNat % 16)] else [c] := by
  simp only [lettered, List.mem_cons, List.not_mem_nil, or_false, not_or] at h
  simp only [escape, h, ite_false]

theorem takePieces?_escape (c : Char) (rest : Input) :
    takePieces? (ofChars (escape c) ++ rest) =
      (takePieces? rest).map fun (ps, rest) => (pieceOf c :: ps, rest) := by
  by_cases hl : c ∈ lettered
  · obtain ⟨e, hesc, he⟩ := escape_of_mem_lettered hl
    have hp : pieceOf c = .char c := if_neg fun h => h.2 hl
    rw [hesc, hp]
    exact takePieces?_letter he rest
  · have hesc := escape_of_not_mem_lettered hl
    by_cases hc : c.toNat < 32
    · have hp : pieceOf c = .unit c.toNat := if_pos ⟨hc, hl⟩
      have hn : codeUnit? '0' '0' (hexDigit (c.toNat / 16)) (hexDigit (c.toNat % 16)) =
          some c.toNat := by
        have hzero : hexValue? '0' = some 0 := rfl
        have hvalue : c.toNat / 16 * 16 + c.toNat % 16 = c.toNat := Nat.div_add_mod' _ _
        simp [codeUnit?, hzero, hexValue?_hexDigit (c.toNat / 16) (by omega),
          hexValue?_hexDigit (c.toNat % 16) (by omega), hvalue]
      rw [hesc, if_pos hc, hp]
      exact takePieces?_unit hn rest
    · have hp : pieceOf c = .char c := if_neg fun h => hc h.1
      have hq : c ≠ '"' := fun h => hl (by simp [lettered, h])
      have hb : c ≠ '\\' := fun h => hl (by simp [lettered, h])
      rw [hesc, if_neg hc, hp]
      exact takePieces?_plain hq hb (Nat.not_lt.1 hc) rest

theorem spell?_pieceOf (c : Char) (ps : List Piece) :
    spell? (pieceOf c :: ps) = (spell? ps).map (c :: ·) := by
  unfold pieceOf
  split
  next h =>
    have hhigh : isHighSurrogate c.toNat = false := by simp [isHighSurrogate]; omega
    have hlow : isLowSurrogate c.toNat = false := by simp [isLowSurrogate]; omega
    rw [spell?.eq_def]
    simp [hhigh, hlow]
  next => rfl

theorem takePieces?_flatMap_escape (cs : List Char) (rest : Input) :
    takePieces? (ofChars (cs.flatMap escape) ++ .char '"' :: rest) =
      some (cs.map pieceOf, rest) := by
  induction cs with
  | nil => exact takePieces?_close rest
  | cons c cs ih =>
    rw [List.flatMap_cons, Input.ofChars_append, List.append_assoc, takePieces?_escape, ih]
    rfl

theorem spell?_map_pieceOf (cs : List Char) : spell? (cs.map pieceOf) = some cs := by
  induction cs with
  | nil => rfl
  | cons c cs ih => rw [List.map_cons, spell?_pieceOf, ih, Option.map_some]

theorem takeString?_quote (s : Option String) :
    ∃ tail, quote s = '"' :: tail ∧ ∀ rest, takeString? (ofChars tail ++ rest) = some (s, rest) := by
  cases s with
  | none =>
    refine ⟨['\\', 'u', 'd', '8', '0', '0', '"'], rfl, fun rest => ?_⟩
    have hn : codeUnit? 'd' '8' '0' '0' = some 0xD800 := rfl
    have hp := takePieces?_unit hn (.char '"' :: rest)
    rw [takePieces?_close] at hp
    simp [takeString?, hp, spell?, isHighSurrogate]
  | some s =>
    refine ⟨s.toList.flatMap escape ++ ['"'], rfl, fun rest => ?_⟩
    rw [Input.ofChars_append, List.append_assoc, takeString?]
    simp only [Input.ofChars_cons, Input.ofChars_nil, List.cons_append, List.nil_append,
      takePieces?_flatMap_escape, Option.map_some, spell?_map_pieceOf, String.ofList_toList]

/-! ### What stands around a value -/

/-- A symbol that may follow a value, or the end of the text. -/
def Follows (rest : Input) : Prop :=
  ∀ s ∈ rest.head?, s = .char ',' ∨ s = .char ']' ∨ s = .char '\x7d'

theorem follows_nil : Follows [] := by simp [Follows]

theorem Follows.numeralEnds {rest : Input} (h : Follows rest) : NumeralEnds rest := by
  cases rest with
  | nil => exact ⟨by simp, by simp, by simp⟩
  | cons s rest =>
    obtain rfl | rfl | rfl := h s rfl <;> exact ⟨by simp [digit?], by simp, by simp⟩

theorem Follows.skipBlank {rest : Input} (h : Follows rest) : skipBlank rest = rest := by
  cases rest with
  | nil => rfl
  | cons s rest => obtain rfl | rfl | rfl := h s rfl <;> rfl

theorem follows_compactItems (items : List Json) (rest : Input) :
    Follows (ofChars (compactItems items) ++ rest) := by
  cases items <;> simp [compactItems, Follows]

theorem follows_compactMembers (members : List (Option String × Json)) (rest : Input) :
    Follows (ofChars (compactMembers members) ++ rest) := by
  cases members with
  | nil => simp [compactMembers, Follows]
  | cons m members => simp [compactMembers, Follows]

def numeralStarts : List Char := ['-', '0', '1', '2', '3', '4', '5', '6', '7', '8', '9']

theorem digitText_mem_numeralStarts : ∀ d : Fin 10, digitText d ∈ numeralStarts := by decide

theorem numeral_text_cons (n : Numeral) :
    ∃ c cs, n.text exponentStyle = c :: cs ∧ c ∈ numeralStarts := by
  obtain ⟨d, cs, hd⟩ := toDigits_cons n.whole
  rw [numeral_text, hd]
  cases n.negative with
  | true => exact ⟨'-', _, rfl, by simp [numeralStarts]⟩
  | false => exact ⟨digitText d, _, rfl, digitText_mem_numeralStarts d⟩

theorem isBlank_of_mem_numeralStarts :
    ∀ c ∈ numeralStarts, isBlank (.char c) = false ∧ c ≠ ']' := by
  simp [numeralStarts, isBlank]

theorem compactChars_cons (json : Json) :
    ∃ c cs, json.compactChars = c :: cs ∧ isBlank (.char c) = false ∧ c ≠ ']' := by
  cases json with
  | null => exact ⟨'n', _, rfl, rfl, by decide⟩
  | bool b => cases b <;> exact ⟨_, _, rfl, rfl, by decide⟩
  | number n =>
    obtain ⟨c, cs, hc, hmem⟩ := numeral_text_cons n
    exact ⟨c, cs, hc, isBlank_of_mem_numeralStarts c hmem⟩
  | string s => cases s <;> exact ⟨'"', _, rfl, rfl, by decide⟩
  | array items => cases items <;> exact ⟨'[', _, rfl, rfl, by decide⟩
  | object members => cases members <;> exact ⟨'\x7b', _, rfl, rfl, by decide⟩

theorem skipBlank_cons {s : Symbol} (h : isBlank s = false) (rest : Input) :
    skipBlank (s :: rest) = s :: rest := by
  simp [skipBlank, h]

/-! ### One step of a reader -/

theorem takeValue?_number (fuel : Nat) (n : Numeral) {rest : Input} (h : Follows rest) :
    takeValue? (fuel + 1) (ofChars (n.text exponentStyle) ++ rest) = some (.number n, rest) := by
  have htake := takeNumeral?_text n h.numeralEnds
  obtain ⟨c, cs, hc, hmem⟩ := numeral_text_cons n
  rw [hc, Input.ofChars_cons, List.cons_append] at htake ⊢
  have hskip := skipBlank_cons (isBlank_of_mem_numeralStarts c hmem).1 (ofChars cs ++ rest)
  simp only [numeralStarts, List.mem_cons, List.not_mem_nil, or_false] at hmem
  obtain rfl | rfl | rfl | rfl | rfl | rfl | rfl | rfl | rfl | rfl | rfl := hmem <;>
    simp [takeValue?, hskip, htake]

theorem takeValue?_string (fuel : Nat) (s : Option String) (rest : Input) :
    takeValue? (fuel + 1) (ofChars (quote s) ++ rest) = some (.string s, rest) := by
  obtain ⟨tail, hs, htake⟩ := takeString?_quote s
  rw [hs, Input.ofChars_cons, List.cons_append, takeValue?, skipBlank_cons rfl]
  simp [htake]

theorem takeValue?_array {fuel : Nat} {items : List Json} {s : Symbol} {input rest : Input}
    (hblank : isBlank s = false) (hclose : s ≠ .char ']')
    (h : takeItems? fuel (s :: input) = some (items, rest)) :
    takeValue? (fuel + 1) (.char '[' :: s :: input) = some (.array items, rest) := by
  rw [takeValue?, skipBlank_cons rfl]
  simp [skipBlank_cons hblank, hclose, h]

theorem takeValue?_object {fuel : Nat} {members : List (Option String × Json)}
    {input rest : Input}
    (h : takeMembers? fuel (.char '"' :: input) = some (members, rest)) :
    takeValue? (fuel + 1) (.char '\x7b' :: .char '"' :: input) = some (.object members, rest) := by
  rw [takeValue?, skipBlank_cons rfl]
  simp [skipBlank_cons (s := .char '"') rfl, h]

theorem takeItems?_last {fuel : Nat} {item : Json} {input rest : Input}
    (h : takeValue? fuel input = some (item, .char ']' :: rest)) :
    takeItems? (fuel + 1) input = some ([item], rest) := by
  simp [takeItems?, h, skipBlank_cons (s := .char ']') rfl]

theorem takeItems?_more {fuel : Nat} {item : Json} {items : List Json} {input more rest : Input}
    (h : takeValue? fuel input = some (item, .char ',' :: more))
    (hmore : takeItems? fuel more = some (items, rest)) :
    takeItems? (fuel + 1) input = some (item :: items, rest) := by
  simp [takeItems?, h, skipBlank_cons (s := .char ',') rfl, hmore]

theorem takeMembers?_last {fuel : Nat} {name : Option String} {value : Json}
    {input inside rest : Input} (hname : takeString? input = some (name, .char ':' :: inside))
    (h : takeValue? fuel inside = some (value, .char '\x7d' :: rest)) :
    takeMembers? (fuel + 1) (.char '"' :: input) = some ([(name, value)], rest) := by
  simp [takeMembers?, skipBlank_cons (s := .char '"') rfl, hname,
    skipBlank_cons (s := .char ':') rfl, h, skipBlank_cons (s := .char '\x7d') rfl]

theorem takeMembers?_more {fuel : Nat} {name : Option String} {value : Json}
    {members : List (Option String × Json)} {input inside more rest : Input}
    (hname : takeString? input = some (name, .char ':' :: inside))
    (h : takeValue? fuel inside = some (value, .char ',' :: more))
    (hmore : takeMembers? fuel more = some (members, rest)) :
    takeMembers? (fuel + 1) (.char '"' :: input) = some ((name, value) :: members, rest) := by
  simp [takeMembers?, skipBlank_cons (s := .char '"') rfl, hname,
    skipBlank_cons (s := .char ':') rfl, h, skipBlank_cons (s := .char ',') rfl, hmore]

/-! ### Values -/

theorem length_compactChars_pos (json : Json) : 0 < json.compactChars.length := by
  obtain ⟨c, cs, hc, -⟩ := compactChars_cons json
  rw [hc, List.length_cons]
  omega

mutual

/-- A value is taken off a text as it was written. -/
theorem takeValue?_compact (json : Json) (fuel : Nat) (rest : Input) (h : Follows rest)
    (hfuel : 2 * json.compactChars.length ≤ fuel + 2) :
    takeValue? (fuel + 1) (ofChars json.compactChars ++ rest) = some (json, rest) := by
  match json with
  | .null => rfl
  | .bool true => rfl
  | .bool false => rfl
  | .number n => exact takeValue?_number fuel n h
  | .string s => exact takeValue?_string fuel s rest
  | .array [] => rfl
  | .array (item :: items) =>
    simp only [compactChars, List.length_cons] at hfuel
    have htake := takeItems?_compact item items fuel rest (by omega)
    obtain ⟨c, cs, hc, hblank, hclose⟩ := compactChars_cons item
    rw [hc] at htake
    simp only [compactChars, hc]
    exact takeValue?_array hblank (by simpa using hclose) htake
  | .object [] => rfl
  | .object ((name, value) :: members) =>
    simp only [compactChars, List.length_cons] at hfuel
    have htake := takeMembers?_compact name value members fuel rest (by omega)
    obtain ⟨tail, hs, -⟩ := takeString?_quote name
    rw [hs] at htake
    simp only [compactChars, hs]
    exact takeValue?_object htake
termination_by fuel + 1

theorem takeItems?_compact (item : Json) (items : List Json) (fuel : Nat) (rest : Input)
    (hfuel : 2 * (item.compactChars ++ compactItems items).length ≤ fuel) :
    takeItems? fuel (ofChars (item.compactChars ++ compactItems items) ++ rest) =
      some (item :: items, rest) := by
  rw [List.length_append] at hfuel
  have hpos := item.length_compactChars_pos
  obtain ⟨fuel, rfl⟩ : ∃ n, fuel = n + 2 := ⟨fuel - 2, by omega⟩
  rw [Input.ofChars_append, List.append_assoc]
  have hitem := takeValue?_compact item fuel _ (follows_compactItems items rest) (by omega)
  match items with
  | [] => exact takeItems?_last hitem
  | next :: items =>
    simp only [compactItems, List.length_cons] at hfuel
    exact takeItems?_more hitem (takeItems?_compact next items (fuel + 1) rest (by omega))
termination_by fuel

theorem takeMembers?_compact (name : Option String) (value : Json)
    (members : List (Option String × Json)) (fuel : Nat) (rest : Input)
    (hfuel : 2 * (quote name ++ ':' :: (value.compactChars ++ compactMembers members)).length
      ≤ fuel) :
    takeMembers? fuel
        (ofChars (quote name ++ ':' :: (value.compactChars ++ compactMembers members)) ++ rest) =
      some ((name, value) :: members, rest) := by
  rw [List.length_append, List.length_cons, List.length_append] at hfuel
  obtain ⟨fuel, rfl⟩ : ∃ n, fuel = n + 2 := ⟨fuel - 2, by omega⟩
  obtain ⟨tail, hs, hname⟩ := takeString?_quote name
  have hvalue := takeValue?_compact value fuel _ (follows_compactMembers members rest) (by omega)
  rw [hs]
  simp only [Input.ofChars_append, Input.ofChars_cons, List.cons_append, List.append_assoc]
  match members with
  | [] => exact takeMembers?_last (hname _) hvalue
  | (next, value') :: members =>
    simp only [compactMembers, List.length_cons] at hfuel
    exact takeMembers?_more (hname _) hvalue
      (takeMembers?_compact next value' members (fuel + 1) rest (by omega))
termination_by fuel

end

/-- A compact text reads as the value that it was written for. -/
theorem read?_compact (json : Json) : read? (.ofText json.compact) = some json := by
  have htake := takeValue?_compact json (2 * json.compactChars.length) [] follows_nil (by omega)
  rw [List.append_nil] at htake
  rw [compact, Input.ofText_ofList, read?, Input.length_ofChars, htake]
  rfl

end AnnotationGraph.Json
