import AnnotationGraph.Lookup.StandIn
import AnnotationGraph.Proofs.Maps
import Mathlib.Data.List.Basic

/-!
# Stand-in classes tell subject and annotation apart

The name of a stand-in is two encoded class names with a dollar sign between them.  An encoded name
has no dollar sign and can be read back, so the name of a stand-in determines the subject and the
annotation type.  The fields of a stand-in are its arguments: each is found under its own name.

* `decode_encode`   reading an encoded class name back;
* `name_inj`        stand-ins of one name are made for one subject and one annotation type;
* `field?_ofUse`    the field for an argument.
-/

namespace AnnotationGraph.StandIn

/-! ### Names -/

def unescape (c : Char) : Char := if c = '0' then '/' else if c = '1' then '_' else '$'

/-- Reads an encoded class name back. -/
def decode : List Char → List Char
  | [] => []
  | '_' :: c :: rest => unescape c :: decode rest
  | c :: rest => c :: decode rest

theorem decode_plain {c : Char} (h : c ≠ '_') (rest : List Char) :
    decode (c :: rest) = c :: decode rest := by
  rw [decode.eq_def]
  split
  next heq => exact absurd heq (by simp)
  next heq => exact absurd (List.cons.inj heq).1 h
  next heq =>
    obtain ⟨hc, hrest⟩ := List.cons.inj heq
    rw [hc, hrest]

theorem decode_encodeChar (c : Char) (rest : List Char) :
    decode (encodeChar c ++ rest) = c :: decode rest := by
  unfold encodeChar
  split
  next h => subst h; rfl
  next =>
    split
    next h => subst h; rfl
    next hu =>
      split
      next h => subst h; rfl
      next => exact decode_plain hu rest

theorem decode_encode (name : List Char) : decode (name.flatMap encodeChar) = name := by
  induction name with
  | nil => rfl
  | cons c rest ih => rw [List.flatMap_cons, decode_encodeChar, ih]

theorem dollar_notMem_encodeChar (c : Char) : '$' ∉ encodeChar c := by
  unfold encodeChar
  split
  next => decide
  next =>
    split
    next => decide
    next =>
      split
      next => decide
      next h => exact fun hmem => h (List.mem_singleton.1 hmem).symm

theorem dollar_notMem_encode (name : List Char) : '$' ∉ name.flatMap encodeChar := by
  intro h
  obtain ⟨c, _, hc⟩ := List.mem_flatMap.1 h
  exact dollar_notMem_encodeChar c hc

theorem toList_encode (name : ClassName) : (encode name).toList = name.toList.flatMap encodeChar :=
  String.toList_ofList

theorem encode_inj {m n : ClassName} (h : encode m = encode n) : m = n := by
  have hchars : m.toList.flatMap encodeChar = n.toList.flatMap encodeChar := by
    rw [← toList_encode, ← toList_encode, h]
  have hread := congrArg decode hchars
  rw [decode_encode, decode_encode] at hread
  exact String.toList_inj.1 hread

theorem toList_name (subject type : ClassName) :
    (name subject type).toList
      = (package ++ "/").toList ++ ((encode subject).toList ++ '$' :: (encode type).toList) := by
  show (package ++ "/" ++ encode subject ++ "$" ++ encode type).toList = _
  rw [String.toList_append, String.toList_append, String.toList_append]
  show _ ++ ['$'] ++ _ = _
  rw [List.append_assoc, List.append_assoc, List.singleton_append]

theorem name_inj {subject type subject' type' : ClassName}
    (h : name subject type = name subject' type') : subject = subject' ∧ type = type' := by
  have hchars := congrArg String.toList h
  rw [toList_name, toList_name] at hchars
  have hparts := List.append_cancel_left hchars
  have hs : '$' ∉ (encode subject).toList := by
    rw [toList_encode]
    exact dollar_notMem_encode _
  have ht : '$' ∉ (encode type).toList := by
    rw [toList_encode]
    exact dollar_notMem_encode _
  obtain ⟨h1, _, h2⟩ := (List.append_cons_inj_of_notMem hs ht).1 hparts
  exact ⟨encode_inj (String.toList_inj.1 h1), encode_inj (String.toList_inj.1 h2)⟩

/-! ### Fields -/

theorem find?_field {arguments : List (String × Element)} {a : String × Element}
    (h : arguments.Pairwise fun a b => compare a.1 b.1 = .lt) (ha : a ∈ arguments) :
    (arguments.map field).find? (·.name = a.1) = some (field a) := by
  induction arguments with
  | nil => exact absurd ha (by simp)
  | cons b rest ih =>
    obtain ⟨hb, hrest⟩ := List.pairwise_cons.1 h
    rw [List.map_cons]
    rcases List.mem_cons.1 ha with rfl | ha
    · exact List.find?_cons_of_pos (by simp [field])
    · have hne : b.1 ≠ a.1 := by
        intro heq
        have hlt := hb a ha
        have hself : compare b.1 a.1 = .eq := heq ▸ Std.ReflCmp.compare_self
        rw [hself] at hlt
        exact absurd hlt (by decide)
      have hskip : decide ((field b).name = a.1) = false := decide_eq_false hne
      rw [List.find?_cons, hskip]
      exact ih hrest ha

theorem field?_ofUse (subject : ClassName) {use : AnnotationUse} {a : String × Element}
    (ha : a ∈ use.arguments.entries) : (ofUse subject use).field? a.1 = some (field a) :=
  find?_field use.arguments.ascending ha

end AnnotationGraph.StandIn
