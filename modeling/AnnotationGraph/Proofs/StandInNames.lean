import AnnotationGraph.Proofs.StandIn

/-!
# Names of stand-ins are read back

The name of a stand-in is read back to the subject and the annotation type for which it stands, and no
other name is.  An encoded class name is a text without slashes and dollar signs in which each
underscore begins an escape, so the only dollar sign in the name of a stand-in stands between the two
encoded names.

* `StandIn.isEncoded`           the texts that are encoded class names;
* `StandIn.encode_decode`       such a text is what its decoding is encoded as;
* `StandIn.cut?`                the texts before and after a dollar sign;
* `StandIn.read?`               the subject and the annotation type in a name;
* `StandIn.name_reads_back`     what a name tells.
-/

namespace AnnotationGraph.StandIn

/-! ### Encoded class names -/

/-- A text has no slash and no dollar sign, and each underscore begins an escape. -/
def isEncoded : List Char → Bool
  | [] => true
  | '_' :: c :: rest => (c = '0' || c = '1' || c = '2') && isEncoded rest
  | c :: rest => !(c = '/' || c = '_' || c = '$') && isEncoded rest

theorem isEncoded_plain {c : Char} (hslash : c ≠ '/') (hline : c ≠ '_') (hdollar : c ≠ '$')
    (rest : List Char) : isEncoded (c :: rest) = isEncoded rest := by
  rw [isEncoded.eq_def]
  split
  next heq => exact absurd heq (by simp)
  next heq => exact absurd (List.cons.inj heq).1 hline
  next heq =>
    obtain ⟨rfl, rfl⟩ := List.cons.inj heq
    simp [hslash, hline, hdollar]

theorem isEncoded_encodeChar (c : Char) (rest : List Char) :
    isEncoded (encodeChar c ++ rest) = isEncoded rest := by
  unfold encodeChar
  split
  next => rfl
  next hslash =>
    split
    next => rfl
    next hline =>
      split
      next => rfl
      next hdollar => exact isEncoded_plain hslash hline hdollar rest

theorem isEncoded_encode (name : List Char) : isEncoded (name.flatMap encodeChar) = true := by
  induction name with
  | nil => rfl
  | cons c rest ih => rw [List.flatMap_cons, isEncoded_encodeChar, ih]

theorem encodeChar_unescape {c : Char} (h : c = '0' ∨ c = '1' ∨ c = '2') :
    encodeChar (unescape c) = ['_', c] := by
  rcases h with rfl | rfl | rfl
  · rfl
  · rfl
  · rfl

theorem encode_decode {text : List Char} (h : isEncoded text = true) :
    (decode text).flatMap encodeChar = text := by
  fun_induction isEncoded text with
  | case1 => rfl
  | case2 c rest ih =>
    obtain ⟨hc, hrest⟩ := Bool.and_eq_true_iff.1 h
    have hc : c = '0' ∨ c = '1' ∨ c = '2' := by simpa [or_assoc] using hc
    rw [decode, List.flatMap_cons, encodeChar_unescape hc, ih hrest]
    rfl
  | case3 c rest _ ih =>
    obtain ⟨hc, hrest⟩ := Bool.and_eq_true_iff.1 h
    have hc : (c ≠ '/' ∧ c ≠ '_') ∧ c ≠ '$' := by simpa using hc
    have hplain : encodeChar c = [c] := by
      rw [encodeChar, if_neg hc.1.1, if_neg hc.1.2, if_neg hc.2]
    rw [decode_plain hc.1.2, List.flatMap_cons, hplain, ih hrest]
    rfl

/-- The encoded class names are the texts that look like one. -/
theorem isEncoded_iff {text : String} : isEncoded text.toList = true ↔ ∃ name, encode name = text := by
  constructor
  · intro h
    refine ⟨String.ofList (decode text.toList), String.toList_inj.1 ?_⟩
    rw [toList_encode, String.toList_ofList, encode_decode h]
  · rintro ⟨name, rfl⟩
    rw [toList_encode, isEncoded_encode]

/-! ### The two parts of a name -/

def cut? : List Char → Option (List Char × List Char)
  | [] => none
  | c :: rest => if c = '$' then some ([], rest) else (cut? rest).map fun (a, b) => (c :: a, b)

theorem cut?_append {a : List Char} (h : '$' ∉ a) (b : List Char) :
    cut? (a ++ '$' :: b) = some (a, b) := by
  induction a with
  | nil => rw [List.nil_append, cut?, if_pos rfl]
  | cons c rest ih =>
    have hc : c ≠ '$' := fun heq => h (heq ▸ List.mem_cons_self)
    have hrest : '$' ∉ rest := fun hmem => h (List.mem_cons_of_mem _ hmem)
    rw [List.cons_append, cut?, if_neg hc, ih hrest, Option.map_some]

theorem eq_append_of_cut? {text a b : List Char} (h : cut? text = some (a, b)) :
    text = a ++ '$' :: b := by
  induction text generalizing a with
  | nil => exact nomatch h
  | cons c rest ih =>
    by_cases hc : c = '$'
    · rw [cut?, if_pos hc] at h
      obtain ⟨rfl, rfl⟩ := Prod.mk.inj (Option.some.inj h)
      rw [hc, List.nil_append]
    · rw [cut?, if_neg hc] at h
      obtain ⟨⟨a', b'⟩, hcut, heq⟩ := Option.map_eq_some_iff.1 h
      obtain ⟨rfl, rfl⟩ := Prod.mk.inj heq
      rw [ih hcut, List.cons_append]

/-- The subject and the annotation type for which classes of a name stand. -/
def read? (name : ClassName) : Option (ClassName × ClassName) := do
  let (subject, type) ← cut? (← name.toList.dropPrefix? (package ++ "/").toList)
  if isEncoded subject && isEncoded type then
    return (.ofList (decode subject), .ofList (decode type))
  else none

theorem read?_name (subject type : ClassName) : read? (name subject type) = some (subject, type) := by
  have hpackage : (name subject type).toList.dropPrefix? (package ++ "/").toList
      = some ((encode subject).toList ++ '$' :: (encode type).toList) := by
    rw [List.dropPrefix?_eq_some_iff]
    exact ⟨_, toList_name subject type, beq_self_eq_true _⟩
  have hcut : cut? ((encode subject).toList ++ '$' :: (encode type).toList)
      = some ((encode subject).toList, (encode type).toList) := by
    rw [toList_encode subject]
    exact cut?_append (dollar_notMem_encode _) _
  have hsubject : isEncoded (encode subject).toList = true := isEncoded_iff.2 ⟨subject, rfl⟩
  have htype : isEncoded (encode type).toList = true := isEncoded_iff.2 ⟨type, rfl⟩
  simp only [read?, hpackage, hcut, Option.bind_eq_bind, Option.bind_some, hsubject, htype,
    Bool.and_self, if_true]
  rw [toList_encode, toList_encode, decode_encode, decode_encode, String.ofList_toList,
    String.ofList_toList]
  rfl

theorem eq_name_of_read? {text subject type : ClassName} (h : read? text = some (subject, type)) :
    text = name subject type := by
  obtain ⟨rest, hpackage, h⟩ := Option.bind_eq_some_iff.1 h
  obtain ⟨⟨s, t⟩, hcut, h⟩ := Option.bind_eq_some_iff.1 h
  obtain ⟨hencoded, heq⟩ := Option.ite_none_right_eq_some.1 h
  obtain ⟨hs, ht⟩ := Bool.and_eq_true_iff.1 hencoded
  obtain ⟨rfl, rfl⟩ := Prod.mk.inj (Option.some.inj heq)
  obtain ⟨start, htext, hstart⟩ := List.dropPrefix?_eq_some_iff.1 hpackage
  apply String.toList_inj.1
  rw [htext, eq_of_beq hstart, eq_append_of_cut? hcut, toList_name, toList_encode, toList_encode,
    String.toList_ofList, String.toList_ofList, encode_decode hs, encode_decode ht]

/-- **The name of a stand-in tells the subject and the annotation type.**  Names are equal just for one
subject and one type; encoding class names keeps them apart and leaves no dollar sign; the encoded names
are the texts without slashes and dollar signs in which each underscore begins an escape; and a text is
read as a subject and a type just if it is their name. -/
theorem name_reads_back :
    (∀ subject type subject' type',
      name subject type = name subject' type' ↔ subject = subject' ∧ type = type') ∧
    (∀ m n, encode m = encode n ↔ m = n) ∧
    (∀ n, '$' ∉ (encode n).toList) ∧
    (∀ text : String, (∃ n, encode n = text) ↔ isEncoded text.toList = true) ∧
    ∀ text subject type, read? text = some (subject, type) ↔ text = name subject type := by
  refine ⟨?_, ?_, ?_, fun text => isEncoded_iff.symm, ?_⟩
  · intro subject type subject' type'
    exact ⟨name_inj, fun ⟨hsubject, htype⟩ => by rw [hsubject, htype]⟩
  · exact fun m n => ⟨encode_inj, congrArg encode⟩
  · intro n
    rw [toList_encode]
    exact dollar_notMem_encode _
  · exact fun text subject type => ⟨eq_name_of_read?, fun h => h ▸ read?_name subject type⟩

example : read? "synthetic/annotation/a_2b$" = some ("a$b", "") := by decide
example : read? "synthetic/annotation/a/b$c" = none := by decide

end AnnotationGraph.StandIn
