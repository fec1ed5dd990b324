import AnnotationGraph.Lookup.Synthesizer
import Mathlib.Data.List.Basic

/-!
# The descriptors of methods

A method descriptor is read exactly if it is a list of types in parentheses, a result type and any text
after it; the number that is read is that of the types in the list.  A type can be read in one way
only, whatever stands after it and although a class name may hold brackets and parentheses, so a
descriptor has these parts in one way only.

* `Descriptor.TypeForm`                  types, with their spelling `chars`;
* `Descriptor.afterType?_eq_some_iff`    what is read as a type;
* `TypeForm.append_inj`                  a type is not the beginning of another;
* `Descriptor.Form`                      what a method descriptor consists of, with its spelling `text`;
* `Form.text_inj`                        a descriptor consists of one such thing;
* `Descriptor.parameterCount?_counts`    which descriptors are counted, and as what.
-/

namespace AnnotationGraph.Descriptor

variable {rest : List Char}

/-! ### Types -/

/-- A type that is no array: a letter, or a class under its name. -/
inductive ItemType where
  | letter (c : Char) (h : c ∈ ['B', 'C', 'D', 'F', 'I', 'J', 'S', 'Z', 'V'])
  | named (name : List Char) (h : ';' ∉ name)

def ItemType.chars : ItemType → List Char
  | .letter c _ => [c]
  | .named name _ => 'L' :: (name ++ [';'])

structure TypeForm where
  dimensions : Nat
  item : ItemType
  bounded : dimensions ≤ 255

def TypeForm.chars (t : TypeForm) : List Char :=
  List.replicate t.dimensions '[' ++ t.item.chars

theorem isPrimitive_iff {c : Char} :
    isPrimitive c = true ↔ c ∈ ['B', 'C', 'D', 'F', 'I', 'J', 'S', 'Z', 'V'] := by
  simp [isPrimitive, or_assoc]

/-! ### Reading a type -/

theorem afterName?_append {name : List Char} (h : ';' ∉ name) (rest : List Char) :
    afterName? (name ++ ';' :: rest) = some rest := by
  induction name with
  | nil => rw [List.nil_append, afterName?, if_pos rfl]
  | cons c name ih =>
    have hc : c ≠ ';' := fun heq => h (heq ▸ List.mem_cons_self)
    rw [List.cons_append, afterName?, if_neg hc]
    exact ih fun hmem => h (List.mem_cons_of_mem _ hmem)

theorem exists_of_afterName? {text : List Char} (h : afterName? text = some rest) :
    ∃ name, ';' ∉ name ∧ text = name ++ ';' :: rest := by
  induction text with
  | nil => exact nomatch h
  | cons c text ih =>
    by_cases hc : c = ';'
    · rw [afterName?, if_pos hc] at h
      exact ⟨[], List.not_mem_nil, by rw [hc, Option.some.inj h, List.nil_append]⟩
    · rw [afterName?, if_neg hc] at h
      obtain ⟨name, hname, rfl⟩ := ih h
      refine ⟨c :: name, fun hmem => ?_, rfl⟩
      exact hname ((List.mem_cons.1 hmem).resolve_left (Ne.symm hc))

theorem afterType?_item (dimensions : Nat) (i : ItemType) (rest : List Char) :
    afterType? dimensions (i.chars ++ rest) = some rest := by
  cases i with
  | letter c h =>
    have hc := isPrimitive_iff.2 h
    have hbracket : c ≠ '[' := by rintro rfl; exact absurd hc (by decide)
    have hclass : c ≠ 'L' := by rintro rfl; exact absurd hc (by decide)
    rw [ItemType.chars, List.singleton_append, afterType?, if_neg hbracket, if_neg hclass, if_pos hc]
  | named name h =>
    rw [ItemType.chars, List.cons_append, List.append_assoc, List.singleton_append, afterType?,
      if_neg (by decide), if_pos rfl, afterName?_append h]

theorem afterType?_brackets (i : ItemType) (rest : List Char) (n : Nat) :
    ∀ dimensions, dimensions + n ≤ maxDimensions →
      afterType? dimensions (List.replicate n '[' ++ (i.chars ++ rest)) = some rest := by
  induction n with
  | zero => exact fun dimensions _ => afterType?_item dimensions i rest
  | succ n ih =>
    intro dimensions hle
    rw [List.replicate_succ, List.cons_append, afterType?, if_pos rfl, if_pos (by omega)]
    exact ih (dimensions + 1) (by omega)

theorem afterType?_chars (t : TypeForm) (rest : List Char) :
    afterType? 0 (t.chars ++ rest) = some rest := by
  rw [TypeForm.chars, List.append_assoc]
  exact afterType?_brackets t.item rest t.dimensions 0 (by rw [Nat.zero_add]; exact t.bounded)

theorem exists_item_of_afterType? {dimensions : Nat} {c : Char} {text : List Char} (hc : c ≠ '[')
    (h : afterType? dimensions (c :: text) = some rest) :
    ∃ i : ItemType, c :: text = i.chars ++ rest := by
  rw [afterType?, if_neg hc] at h
  by_cases hclass : c = 'L'
  · rw [if_pos hclass] at h
    obtain ⟨name, hname, rfl⟩ := exists_of_afterName? h
    refine ⟨.named name hname, ?_⟩
    rw [hclass, ItemType.chars, List.cons_append, List.append_assoc, List.singleton_append]
  · rw [if_neg hclass] at h
    obtain ⟨hletter, hrest⟩ := Option.ite_none_right_eq_some.1 h
    rw [Option.some.inj hrest]
    exact ⟨.letter c (isPrimitive_iff.1 hletter), rfl⟩

-- The induction is on the text: each bracket leaves a shorter one, of which one bracket more has been
-- read.
theorem exists_of_afterType? {text : List Char} :
    ∀ {dimensions}, dimensions ≤ maxDimensions → afterType? dimensions text = some rest →
      ∃ n i, dimensions + n ≤ maxDimensions ∧
        text = List.replicate n '[' ++ (ItemType.chars i ++ rest) := by
  induction text with
  | nil => exact fun _ h => nomatch h
  | cons c text ih =>
    intro dimensions hle h
    by_cases hc : c = '['
    · rw [afterType?, if_pos hc] at h
      obtain ⟨hlt, h⟩ := Option.ite_none_right_eq_some.1 h
      obtain ⟨n, i, hn, rfl⟩ := ih (Nat.succ_le_of_lt hlt) h
      refine ⟨n + 1, i, by omega, ?_⟩
      rw [hc, List.replicate_succ, List.cons_append]
    · obtain ⟨i, hi⟩ := exists_item_of_afterType? hc h
      exact ⟨0, i, hle, hi⟩

theorem afterType?_eq_some_iff {text : List Char} :
    afterType? 0 text = some rest ↔ ∃ t : TypeForm, text = t.chars ++ rest := by
  constructor
  · intro h
    obtain ⟨n, i, hn, htext⟩ := exists_of_afterType? (Nat.zero_le _) h
    rw [Nat.zero_add] at hn
    refine ⟨⟨n, i, hn⟩, ?_⟩
    rw [htext, TypeForm.chars, List.append_assoc]
  · rintro ⟨t, rfl⟩
    exact afterType?_chars t rest

/-! ### Types are told apart by their beginnings -/

theorem ItemType.chars_inj {i j : ItemType} (h : i.chars = j.chars) : i = j := by
  cases i with
  | letter c hc =>
    cases j with
    | letter d hd =>
      obtain rfl : c = d := List.singleton_inj.1 h
      rfl
    | named name hname => simp [ItemType.chars] at h
  | named name hname =>
    cases j with
    | letter d hd => simp [ItemType.chars] at h
    | named other hother =>
      obtain rfl : name = other := List.append_cancel_right (List.cons.inj h).2
      rfl

theorem ItemType.chars_ne_bracket (i : ItemType) (text : List Char) : i.chars ≠ '[' :: text := by
  intro heq
  cases i with
  | letter c hc =>
    obtain ⟨rfl, _⟩ := List.cons.inj heq
    exact absurd hc (by decide)
  | named name hname => exact absurd (List.cons.inj heq).1 (by decide)

theorem brackets_inj {i j : ItemType} {n : Nat} :
    ∀ {m}, List.replicate n '[' ++ i.chars = List.replicate m '[' ++ j.chars → n = m ∧ i = j := by
  induction n with
  | zero =>
    intro m h
    cases m with
    | zero => exact ⟨rfl, ItemType.chars_inj h⟩
    | succ m => exact absurd h (i.chars_ne_bracket _)
  | succ n ih =>
    intro m h
    cases m with
    | zero => exact absurd h.symm (j.chars_ne_bracket _)
    | succ m =>
      obtain ⟨hnm, hij⟩ := ih (List.cons.inj h).2
      exact ⟨congrArg (· + 1) hnm, hij⟩

theorem TypeForm.chars_inj {t u : TypeForm} (h : t.chars = u.chars) : t = u := by
  obtain ⟨hdimensions, hitem⟩ := brackets_inj h
  cases t
  cases u
  cases hdimensions
  cases hitem
  rfl

theorem TypeForm.append_inj {t u : TypeForm} {after : List Char}
    (h : t.chars ++ rest = u.chars ++ after) : t = u ∧ rest = after := by
  have hrest : rest = after := by
    have hread := afterType?_chars t rest
    rw [h, afterType?_chars u after] at hread
    exact (Option.some.inj hread).symm
  subst hrest
  exact ⟨TypeForm.chars_inj (List.append_cancel_right h), rfl⟩

theorem TypeForm.append_ne_close (t : TypeForm) (rest after : List Char) :
    t.chars ++ rest ≠ ')' :: after := by
  intro heq
  have hread := afterType?_chars t rest
  rw [heq] at hread
  exact nomatch hread

/-! ### Reading the list of types -/

theorem TypeForm.chars_ne_nil (t : TypeForm) : t.chars ≠ [] := by
  intro hnil
  have hread := afterType?_chars t []
  rw [hnil] at hread
  exact nomatch hread

theorem length_le_flatMap_chars (types : List TypeForm) :
    types.length ≤ (types.flatMap TypeForm.chars).length := by
  induction types with
  | nil => exact Nat.le_refl 0
  | cons t types ih =>
    have hpos := List.length_pos_of_ne_nil t.chars_ne_nil
    rw [List.flatMap_cons, List.length_append, List.length_cons]
    omega

theorem parameters?_of_ne_close {text : List Char} (h : ∀ after, text ≠ ')' :: after) (steps : Nat) :
    parameters? (steps + 1) text = (afterType? 0 text).bind fun next =>
      (parameters? steps next).bind fun (n, rest) => some (n + 1, rest) := by
  rw [parameters?]
  · rfl
  · exact h

theorem parameters?_append (types : List TypeForm) (extra : Nat) (rest : List Char) :
    parameters? (types.length + extra + 1) (types.flatMap TypeForm.chars ++ ')' :: rest)
      = some (types.length, rest) := by
  induction types with
  | nil => rfl
  | cons t types ih =>
    rw [List.length_cons, Nat.add_right_comm types.length 1 extra, List.flatMap_cons,
      List.append_assoc, parameters?_of_ne_close (t.append_ne_close _), afterType?_chars,
      Option.bind_some, ih]
    rfl

theorem exists_of_parameters? (steps : Nat) :
    ∀ {text n}, parameters? steps text = some (n, rest) →
      ∃ types : List TypeForm, types.length = n ∧
        text = types.flatMap TypeForm.chars ++ ')' :: rest := by
  induction steps with
  | zero => exact fun h => nomatch h
  | succ steps ih =>
    intro text n h
    by_cases hclose : ∃ after, text = ')' :: after
    · obtain ⟨after, rfl⟩ := hclose
      obtain ⟨rfl, rfl⟩ := Prod.mk.inj (Option.some.inj h)
      exact ⟨[], rfl, rfl⟩
    · rw [parameters?_of_ne_close (not_exists.1 hclose)] at h
      obtain ⟨after, hafter, h⟩ := Option.bind_eq_some_iff.1 h
      obtain ⟨⟨k, last⟩, hmore, h⟩ := Option.bind_eq_some_iff.1 h
      obtain ⟨rfl, rfl⟩ := Prod.mk.inj (Option.some.inj h)
      obtain ⟨t, rfl⟩ := afterType?_eq_some_iff.1 hafter
      obtain ⟨types, rfl, rfl⟩ := ih hmore
      exact ⟨t :: types, rfl, by rw [List.flatMap_cons, List.append_assoc]⟩

theorem parameters_inj {types others : List TypeForm} {after : List Char}
    (h : types.flatMap TypeForm.chars ++ ')' :: rest
      = others.flatMap TypeForm.chars ++ ')' :: after) :
    types = others ∧ rest = after := by
  induction types generalizing others with
  | nil =>
    cases others with
    | nil => exact ⟨rfl, (List.cons.inj h).2⟩
    | cons u others =>
      rw [List.flatMap_cons, List.append_assoc] at h
      exact absurd h.symm (u.append_ne_close _ _)
  | cons t types ih =>
    cases others with
    | nil =>
      rw [List.flatMap_cons, List.append_assoc] at h
      exact absurd h (t.append_ne_close _ _)
    | cons u others =>
      rw [List.flatMap_cons, List.flatMap_cons, List.append_assoc, List.append_assoc] at h
      obtain ⟨rfl, hmore⟩ := TypeForm.append_inj h
      obtain ⟨rfl, hrest⟩ := ih hmore
      exact ⟨rfl, hrest⟩

/-! ### Method descriptors -/

/-- What a method descriptor consists of: the types of the parameters, the type of the result, and a
text at the end that means nothing. -/
structure Form where
  parameters : List TypeForm
  result : TypeForm
  rest : List Char

def Form.text (f : Form) : String :=
  .ofList ('(' :: (f.parameters.flatMap TypeForm.chars ++ ')' :: (f.result.chars ++ f.rest)))

theorem Form.text_inj {f g : Form} (h : f.text = g.text) : f = g := by
  obtain ⟨_, hparts⟩ := List.cons.inj (String.ofList_injective h)
  obtain ⟨hparameters, hend⟩ := parameters_inj hparts
  obtain ⟨hresult, hrest⟩ := TypeForm.append_inj hend
  cases f
  cases g
  cases hparameters
  cases hresult
  cases hrest
  rfl

theorem parameterCount?_text (f : Form) : parameterCount? f.text = some f.parameters.length := by
  have hlt : f.parameters.length
      < (f.parameters.flatMap TypeForm.chars ++ ')' :: (f.result.chars ++ f.rest)).length := by
    have hle := length_le_flatMap_chars f.parameters
    rw [List.length_append, List.length_cons]
    omega
  obtain ⟨extra, hsteps⟩ := Nat.exists_eq_add_of_lt hlt
  rw [parameterCount?, Form.text, String.toList_ofList]
  show (parameters? _ _).bind _ = _
  rw [hsteps, parameters?_append]
  show (afterType? 0 (f.result.chars ++ f.rest)).bind _ = _
  rw [afterType?_chars]
  rfl

theorem exists_of_parameterCount? {d : String} {n : Nat} (h : parameterCount? d = some n) :
    ∃ f : Form, f.text = d ∧ f.parameters.length = n := by
  rw [parameterCount?] at h
  split at h
  next text hd =>
    obtain ⟨⟨k, last⟩, hparameters, h⟩ := Option.bind_eq_some_iff.1 h
    obtain ⟨rest, hresult, h⟩ := Option.bind_eq_some_iff.1 h
    obtain rfl : k = n := Option.some.inj h
    obtain ⟨types, hcount, rfl⟩ := exists_of_parameters? _ hparameters
    obtain ⟨result, rfl⟩ := afterType?_eq_some_iff.1 hresult
    refine ⟨⟨types, result, rest⟩, String.toList_inj.1 ?_, hcount⟩
    rw [Form.text, String.toList_ofList, hd]
  next => exact nomatch h

theorem parameterCount?_eq_none_iff {d : String} :
    parameterCount? d = none ↔ ∀ f : Form, f.text ≠ d := by
  constructor
  · rintro hnone f rfl
    rw [parameterCount?_text] at hnone
    exact nomatch hnone
  · intro hno
    cases h : parameterCount? d with
    | none => rfl
    | some n =>
      obtain ⟨f, hf, _⟩ := exists_of_parameterCount? h
      exact absurd hf (hno f)

/-- **A method descriptor has its parts in one way, and exactly what has them is counted.**  It is
counted as `n` if it is `n` types in parentheses, a result type and any text after it, and those are
determined.  A method of any other descriptor is refused, with a message that shows the descriptor. -/
theorem parameterCount?_counts (d : String) :
    (∀ n, parameterCount? d = some n ↔ ∃ f : Form, f.text = d ∧ f.parameters.length = n) ∧
    (∀ f g : Form, f.text = g.text ↔ f = g) ∧
    (parameterCount? d = none ↔ ∀ f : Form, f.text ≠ d) ∧
    (∀ (h : Hierarchy) owner name fault, h.firstFree ⟨owner, name, d⟩ = .error fault ↔
      fault = .badDescriptor d ∧ ∀ f : Form, f.text ≠ d) ∧
    (Fault.badDescriptor d).message = "invalid method descriptor " ++ d := by
  refine ⟨?_, fun f g => ⟨Form.text_inj, congrArg Form.text⟩, parameterCount?_eq_none_iff, ?_, rfl⟩
  · intro n
    refine ⟨exists_of_parameterCount?, ?_⟩
    rintro ⟨f, rfl, rfl⟩
    exact parameterCount?_text f
  · intro h owner name fault
    rw [← parameterCount?_eq_none_iff, Hierarchy.firstFree]
    cases hcount : parameterCount? d with
    | none => simp [eq_comm]
    | some n => simp

example : parameterCount? "(L)V;[[VI)[I and more" = some 3 := by decide
example : parameterCount? "(L)V" = none := by decide

end AnnotationGraph.Descriptor
