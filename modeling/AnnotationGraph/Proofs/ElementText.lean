import AnnotationGraph.Proofs.FiniteNumbers
import AnnotationGraph.Proofs.Maps
import AnnotationGraph.Proofs.Records

/-!
# Element values read back

What the values of annotation arguments read as once they are written.  Everything in them reads as
it was except for floating-point constants, which are read back one by one; one that is not finite is
written as null and makes the whole value unreadable.

* `Constant.reread`            what a constant is read back as;
* `ElementTree.induction`      the induction over the values that a value is made of;
* `ElementTree.readsAs`        values at every depth of nesting;
* `isSome_reread_iff`, `Element.reread_eq_some`   which values read back, and which as they were.
-/

namespace AnnotationGraph

open Json

/-! ### Constants -/

namespace Constant

/-- What a constant is read back as. -/
def reread : Constant → Option Constant
  | .float x => (Binary32.ofJson? (x.toJson singleLayout)).map .float
  | .double x => (Binary64.ofJson? (x.toJson doubleLayout)).map .double
  | c => some c

def isFloating : Constant → Bool
  | .float _ | .double _ => true
  | _ => false

theorem reread_of_not_isFloating {c : Constant} (h : c.isFloating = false) : c.reread = some c := by
  cases c with
  | float | double => cases h
  | _ => rfl

theorem nesting_toJson_binary {f : BinaryFormat} (l : Layout) (x : Binary f) :
    (x.toJson l).nesting = 0 := by
  unfold Binary.toJson
  split <;> rfl

theorem integerIn?_int {low high n : Int} (hlow : low ≤ n) (hhigh : n ≤ high) :
    (Json.int n).integerIn? low high = some n := by
  simp [Json.int, integerIn?, Numeral.integer?_ofInt, Option.filter, hlow, hhigh]

theorem char?_singleton (c : Char) : (Json.text (String.singleton c)).char? = some c := by
  simp [char?]

theorem integerIn?_int8 (n : Int8) :
    (Json.int n.toInt).integerIn? (-128) 127 = some n.toInt := by
  have hlow := Int8.le_toInt n
  have hhigh := Int8.toInt_lt n
  exact integerIn?_int (by omega) (by omega)

theorem integerIn?_int16 (n : Int16) :
    (Json.int n.toInt).integerIn? (-32768) 32767 = some n.toInt := by
  have hlow := Int16.le_toInt n
  have hhigh := Int16.toInt_lt n
  exact integerIn?_int (by omega) (by omega)

theorem integerIn?_int32 (n : Int32) :
    (Json.int n.toInt).integerIn? (-2147483648) 2147483647 = some n.toInt := by
  have hlow := Int32.le_toInt n
  have hhigh := Int32.toInt_lt n
  exact integerIn?_int (by omega) (by omega)

theorem integerIn?_int64 (n : Int64) :
    (Json.int n.toInt).integerIn? (-9223372036854775808) 9223372036854775807 = some n.toInt := by
  have hlow := Int64.le_toInt n
  have hhigh := Int64.toInt_lt n
  exact integerIn?_int (by omega) (by omega)

theorem readsAs (c : Constant) : ReadsAs Constant.ofJson? c.toJson c.reread := by
  cases c with
  | byte n =>
    refine ReadsAs.of_alternative rfl fun depth => ?_
    simp [Constant.ofJson?, reread, integerIn?_int8]
  | char c =>
    refine ReadsAs.of_alternative rfl fun depth => ?_
    simp [Constant.ofJson?, reread, char?_singleton]
  | short n =>
    refine ReadsAs.of_alternative rfl fun depth => ?_
    simp [Constant.ofJson?, reread, integerIn?_int16]
  | int n =>
    refine ReadsAs.of_alternative rfl fun depth => ?_
    simp [Constant.ofJson?, reread, integerIn?_int32]
  | long n =>
    refine ReadsAs.of_alternative rfl fun depth => ?_
    simp [Constant.ofJson?, reread, integerIn?_int64]
  | float x =>
    refine ReadsAs.of_alternative rfl fun depth => ?_
    simp [Constant.ofJson?, reread, nesting_toJson_binary]
  | double x =>
    refine ReadsAs.of_alternative rfl fun depth => ?_
    simp [Constant.ofJson?, reread, nesting_toJson_binary]
  | boolean b =>
    refine ReadsAs.of_alternative rfl fun depth => ?_
    simp [Constant.ofJson?, reread]
  | string s =>
    refine ReadsAs.of_alternative rfl fun depth => ?_
    simp [Constant.ofJson?, reread]

end Constant

/-! ### Element values -/

namespace ElementTree

/-- An induction over the values that element values are made of. -/
@[elab_as_elim]
theorem induction {P : ElementTree → Prop} (constant : ∀ c, P (.constant c))
    (enumConstant : ∀ type name, P (.enumConstant type name))
    (classLiteral : ∀ name, P (.classLiteral name))
    (nested : ∀ type arguments, (∀ a ∈ arguments, P a.2) → P (.nested type arguments))
    (array : ∀ items, (∀ item ∈ items, P item) → P (.array items)) : ∀ t, P t
  | .constant c => constant c
  | .enumConstant type name => enumConstant type name
  | .classLiteral name => classLiteral name
  | .nested type arguments =>
    nested type arguments fun a ha =>
      have : sizeOf a.2 < sizeOf arguments := by
        have hlist := List.sizeOf_lt_of_mem ha
        have hpair : sizeOf a.2 < sizeOf a := by
          cases a
          simp only [Prod.mk.sizeOf_spec]
          omega
        omega
      induction constant enumConstant classLiteral nested array a.2
  | .array items =>
    array items fun item _ => induction constant enumConstant classLiteral nested array item

theorem itemsOf_eq_map (items : List ElementTree) : itemsOf items = items.map toJson := by
  induction items with
  | nil => rfl
  | cons item items ih => rw [itemsOf, ih, List.map_cons]

theorem object_membersOf (arguments : List (String × ElementTree)) :
    Json.object (membersOf arguments) = .record (arguments.map fun a => (a.1, a.2.toJson)) := by
  rw [Json.record, List.map_map]
  congr 1
  induction arguments with
  | nil => rfl
  | cons a arguments ih => rw [membersOf, ih, List.map_cons]; rfl

mutual

def reread : ElementTree → Option Element
  | .constant c => c.reread.map .constant
  | .enumConstant type name => some (.enumConstant type name)
  | .classLiteral name => some (.classLiteral name)
  | .nested type arguments =>
    (rereadArguments arguments).map fun entries => .nested ⟨type, .ofList entries⟩
  | .array items => (rereadItems items).map .array

def rereadItems : List ElementTree → Option (List Element)
  | [] => some []
  | item :: items => do return (← item.reread) :: (← rereadItems items)

def rereadArguments : List (String × ElementTree) → Option (List (String × Element))
  | [] => some []
  | (name, value) :: arguments => do return (name, ← value.reread) :: (← rereadArguments arguments)

end

theorem rereadItems_eq_mapM (items : List ElementTree) : rereadItems items = items.mapM reread := by
  induction items with
  | nil => rfl
  | cons item items ih => rw [rereadItems, ih, List.mapM_cons]

def rereadArgument (a : String × ElementTree) : Option (String × Element) :=
  a.2.reread.map (a.1, ·)

theorem rereadArguments_eq_mapM (arguments : List (String × ElementTree)) :
    rereadArguments arguments = arguments.mapM rereadArgument := by
  induction arguments with
  | nil => rfl
  | cons a arguments ih =>
    rw [rereadArguments, ih, List.mapM_cons, rereadArgument]
    cases a.2.reread <;> rfl

mutual

def constants : ElementTree → List Constant
  | .constant c => [c]
  | .enumConstant _ _ | .classLiteral _ => []
  | .nested _ arguments => constantsOfArguments arguments
  | .array items => constantsOfItems items

def constantsOfItems : List ElementTree → List Constant
  | [] => []
  | item :: items => item.constants ++ constantsOfItems items

def constantsOfArguments : List (String × ElementTree) → List Constant
  | [] => []
  | (_, value) :: arguments => value.constants ++ constantsOfArguments arguments

end

theorem constantsOfItems_eq_flatMap (items : List ElementTree) :
    constantsOfItems items = items.flatMap constants := by
  induction items with
  | nil => rfl
  | cons item items ih => rw [constantsOfItems, ih, List.flatMap_cons]

theorem constantsOfArguments_eq_flatMap (arguments : List (String × ElementTree)) :
    constantsOfArguments arguments = arguments.flatMap fun a => a.2.constants := by
  induction arguments with
  | nil => rfl
  | cons a arguments ih => rw [constantsOfArguments, ih, List.flatMap_cons]

/-! ### Reading element values -/

theorem ofJson?_record_arguments (depth : Nat) (arguments : List (String × ElementTree))
    (h : ∀ a ∈ arguments, ReadsAs Element.ofJson? a.2.toJson a.2.reread) :
    (arguments.map fun a => (a.1, a.2.toJson)).mapM
        (fun m => (Element.ofJson? depth m.2).map fun element => (m.1, element)) =
      if ∀ a ∈ arguments, a.2.toJson.nesting ≤ depth then rereadArguments arguments else none := by
  have heach : ∀ a ∈ arguments,
      ((fun m => (Element.ofJson? depth m.2).map fun element => (m.1, element)) ∘
        fun a : String × ElementTree => (a.1, a.2.toJson)) a =
      if a.2.toJson.nesting ≤ depth then rereadArgument a else none := by
    intro a ha
    simp only [Function.comp_apply, h a ha depth, rereadArgument]
    split <;> rfl
  rw [List.mapM_map, mapM_congr heach, mapM_ite, rereadArguments_eq_mapM]

def annotationToJson (type : ClassName) (arguments : List (String × ElementTree)) : Json := .record [
  ("type_name", .text type),
  ("named_arguments", .record (arguments.map fun a => (a.1, a.2.toJson)))]

theorem toJson_nested (type : ClassName) (arguments : List (String × ElementTree)) :
    (nested type arguments).toJson = .alternative "annotation" (annotationToJson type arguments) := by
  rw [toJson, object_membersOf, annotationToJson]

theorem readsAs_nested (type : ClassName) (arguments : List (String × ElementTree))
    (h : ∀ a ∈ arguments, ReadsAs Element.ofJson? a.2.toJson a.2.reread) :
    ReadsAs AnnotationUse.ofJson? (annotationToJson type arguments)
      ((rereadArguments arguments).map fun entries => ⟨type, .ofList entries⟩) := by
  refine ReadsAs.of_record rfl fun depth => ?_
  simp only [List.forall_mem_cons, nesting_text, Nat.zero_le, true_and, List.not_mem_nil,
    false_implies, implies_true, and_true]
  cases depth with
  | zero =>
    have hpos := nesting_record_pos (arguments.map fun a => (a.1, a.2.toJson))
    rw [if_neg (by omega)]
    simp [AnnotationUse.ofJson?]
  | succ depth =>
    simp (disch := simp) only [AnnotationUse.ofJson?, fields?_record, List.map_cons, List.map_nil,
      Option.bind_eq_bind, Option.bind_some, required_some, text?_text, members?_record,
      nesting_record_le, List.forall_mem_map]
    rw [ofJson?_record_arguments depth arguments h]
    split
    · cases rereadArguments arguments <;> rfl
    · rfl

/-- An element value reads back, whatever it is, at every depth. -/
theorem readsAs (t : ElementTree) : ReadsAs Element.ofJson? t.toJson t.reread := by
  induction t using induction with
  | constant c => exact ReadsAs.of_content c.readsAs rfl fun _ => rfl
  | enumConstant type name =>
    refine ReadsAs.of_alternative rfl fun depth => ?_
    cases depth with
    | zero => rfl
    | succ depth => simp [Element.ofJson?, Element.enumOfJson?, nesting_record_le, reread]
  | classLiteral name =>
    refine ReadsAs.of_alternative rfl fun depth => ?_
    simp [Element.ofJson?, reread]
  | nested type arguments ih =>
    have hread : ReadsAs Element.ofJson? (.alternative "annotation" (annotationToJson type arguments))
        (((rereadArguments arguments).map fun entries => ⟨type, .ofList entries⟩).map .nested) :=
      ReadsAs.of_content (readsAs_nested type arguments ih) rfl fun _ => rfl
    rw [Option.map_map] at hread
    rw [toJson_nested]
    exact hread
  | array items ih =>
    rw [toJson, itemsOf_eq_map]
    refine ReadsAs.of_alternative rfl fun depth => ?_
    cases depth with
    | zero => rfl
    | succ depth =>
      simp only [Element.ofJson?, variant?_alternative, items?, Option.bind_eq_bind,
        Option.bind_some, nesting_array_le, List.forall_mem_map, reread, rereadItems_eq_mapM]
      rw [ReadsAs.mapM ih]
      split
      · cases items.mapM reread <;> rfl
      · rfl

/-! ### Which element values read back -/

theorem isSome_reread_iff (t : ElementTree) :
    t.reread.isSome ↔ ∀ c ∈ t.constants, c.reread.isSome := by
  induction t using induction with
  | constant c => simp [reread, constants]
  | enumConstant | classLiteral => simp [reread, constants]
  | nested type arguments ih =>
    rw [reread, Option.isSome_map, rereadArguments_eq_mapM, isSome_mapM_iff, constants,
      constantsOfArguments_eq_flatMap, List.forall_mem_flatMap]
    refine forall₂_congr fun a ha => ?_
    rw [rereadArgument, Option.isSome_map, ih a ha]
  | array items ih =>
    rw [reread, Option.isSome_map, rereadItems_eq_mapM, isSome_mapM_iff, constants,
      constantsOfItems_eq_flatMap, List.forall_mem_flatMap]
    exact forall₂_congr ih

theorem exists_reread (t : ElementTree) (hordered : t.Ordered)
    (h : ∀ c ∈ t.constants, c.reread = some c) : ∃ e, t.reread = some e ∧ e.tree = t := by
  induction t using induction with
  | constant c =>
    have hc := h c (by simp [constants])
    exact ⟨.constant c, by rw [reread, hc, Option.map_some], rfl⟩
  | enumConstant type name => exact ⟨.enumConstant type name, rfl, rfl⟩
  | classLiteral name => exact ⟨.classLiteral name, rfl, rfl⟩
  | nested type arguments ih =>
    rw [Ordered, orderedArguments_iff] at hordered
    rw [constants, constantsOfArguments_eq_flatMap, List.forall_mem_flatMap] at h
    have heach : ∀ a ∈ arguments, ∃ entry, rereadArgument a = some entry ∧
        (entry.1, entry.2.tree) = a := by
      intro a ha
      obtain ⟨e, he, htree⟩ := ih a ha (hordered.2 a ha) (h a ha)
      exact ⟨(a.1, e), by rw [rereadArgument, he, Option.map_some], by rw [htree]⟩
    obtain ⟨entries, hentries, hmap⟩ := exists_mapM heach
    have hascending : entries.Pairwise fun a b => compare a.1 b.1 = .lt := by
      have := hordered.1
      rwa [← hmap, List.pairwise_map] at this
    refine ⟨.nested ⟨type, .ofList entries⟩, ?_, ?_⟩
    · rw [reread, rereadArguments_eq_mapM, hentries, Option.map_some]
    · show ElementTree.nested type _ = _
      rw [OrderedMap.ofList_entries hascending, hmap]
  | array items ih =>
    rw [Ordered, orderedItems_iff] at hordered
    rw [constants, constantsOfItems_eq_flatMap, List.forall_mem_flatMap] at h
    obtain ⟨elements, helements, hmap⟩ :=
      exists_mapM fun item hitem => ih item hitem (hordered item hitem) (h item hitem)
    refine ⟨.array elements, ?_, ?_⟩
    · rw [reread, rereadItems_eq_mapM, helements, Option.map_some]
    · show ElementTree.array _ = _
      rw [hmap]

end ElementTree

theorem Element.eq_of_tree {e e' : Element} (h : e.tree = e'.tree) : e = e' := by
  cases e
  cases e'
  cases h
  rfl

theorem Element.reread_eq_some (e : Element) (h : ∀ c ∈ e.tree.constants, c.reread = some c) :
    e.tree.reread = some e := by
  obtain ⟨e', he', htree⟩ := e.tree.exists_reread e.ordered h
  rw [he', Element.eq_of_tree htree]

/-! ### What is read has constants that a text can spell -/

/-- A constant that a text can spell: a number of 32 bits may be infinite, one of 64 bits may not,
and neither is no number. -/
def Constant.Spelled : Constant → Prop
  | .float x => x.Finite ∨ x.Infinite
  | .double x => x.Finite
  | _ => True

theorem Constant.isSome_reread_iff {c : Constant} (h : c.Spelled) :
    c.reread.isSome ↔ ∀ x, c = .float x → ¬x.Infinite := by
  cases c with
  | float x =>
    rw [reread, Option.isSome_map, Binary32.isSome_ofJson?_toJson]
    constructor
    · intro hx y hy
      cases hy
      exact hx.not_infinite
    · intro hx
      exact h.resolve_right (hx x rfl)
  | double x =>
    rw [reread, Option.isSome_map, Binary64.isSome_ofJson?_toJson]
    exact ⟨fun _ x hx => (nomatch hx), fun _ => h⟩
  | _ => exact ⟨fun _ x hx => (nomatch hx), fun _ => rfl⟩

theorem Constant.spelled_of_ofJson? {depth : Nat} {json : Json} {c : Constant}
    (h : Constant.ofJson? depth json = some c) : c.Spelled := by
  cases depth with
  | zero => cases h
  | succ depth =>
    rw [Constant.ofJson?] at h
    split at h <;> first
      | cases h
      | obtain ⟨x, hx, rfl⟩ := Option.map_eq_some_iff.1 h
    all_goals first
      | exact Binary32.finite_or_infinite_of_ofJson? hx
      | exact Binary64.finite_of_ofJson? hx
      | trivial

theorem Element.constants_of_enumOfJson? {depth : Nat} {json : Json} {e : Element}
    (h : Element.enumOfJson? depth json = some e) : e.tree.constants = [] := by
  unfold Element.enumOfJson? at h
  obtain ⟨fields, -, h⟩ := Option.bind_eq_some_iff.1 h
  split at h
  next =>
    obtain ⟨type, -, h⟩ := Option.bind_eq_some_iff.1 h
    obtain ⟨name, -, h⟩ := Option.bind_eq_some_iff.1 h
    cases h
    rfl
  next => cases h

def AnnotationUse.constants (use : AnnotationUse) : List Constant :=
  use.arguments.entries.flatMap fun a => a.2.tree.constants

theorem Element.constants_nested (use : AnnotationUse) :
    (Element.nested use).tree.constants = use.constants := by
  show ElementTree.constants (.nested _ _) = _
  rw [ElementTree.constants, ElementTree.constantsOfArguments_eq_flatMap, List.flatMap_map]
  rfl

theorem Element.constants_array (items : List Element) :
    (Element.array items).tree.constants = items.flatMap fun e => e.tree.constants := by
  show ElementTree.constants (.array _) = _
  rw [ElementTree.constants, ElementTree.constantsOfItems_eq_flatMap, List.flatMap_map]

mutual

theorem Element.spelled_of_ofJson? (depth : Nat) (json : Json) (e : Element)
    (h : Element.ofJson? depth json = some e) : ∀ c ∈ e.tree.constants, c.Spelled := by
  match depth with
  | 0 => cases h
  | depth + 1 =>
    rw [Element.ofJson?] at h
    split at h
    · obtain ⟨c, hc, rfl⟩ := Option.map_eq_some_iff.1 h
      intro c' hc'
      cases List.mem_singleton.1 hc'
      exact Constant.spelled_of_ofJson? hc
    · rw [Element.constants_of_enumOfJson? h]
      exact fun c hc => (nomatch hc)
    · obtain ⟨name, -, rfl⟩ := Option.map_eq_some_iff.1 h
      exact fun c hc => (nomatch hc)
    · obtain ⟨use, huse, rfl⟩ := Option.map_eq_some_iff.1 h
      rw [Element.constants_nested]
      exact AnnotationUse.spelled_of_ofJson? depth _ use huse
    · split at h
      · cases h
      · obtain ⟨items, -, h⟩ := Option.bind_eq_some_iff.1 h
        obtain ⟨elements, helements, h⟩ := Option.bind_eq_some_iff.1 h
        cases h
        rw [Element.constants_array, List.forall_mem_flatMap]
        intro e he
        obtain ⟨item, -, hitem⟩ := exists_of_mapM helements he
        exact Element.spelled_of_ofJson? _ item e hitem
    · cases h

theorem AnnotationUse.spelled_of_ofJson? (depth : Nat) (json : Json) (use : AnnotationUse)
    (h : AnnotationUse.ofJson? depth json = some use) : ∀ c ∈ use.constants, c.Spelled := by
  match depth with
  | 0 => cases h
  | depth + 1 =>
    rw [AnnotationUse.ofJson?] at h
    obtain ⟨fields, -, h⟩ := Option.bind_eq_some_iff.1 h
    split at h
    next =>
      obtain ⟨type, -, h⟩ := Option.bind_eq_some_iff.1 h
      split at h
      next =>
        cases h
        exact fun c hc => (nomatch hc)
      next =>
        split at h
        next => cases h
        next depth =>
          obtain ⟨members, -, h⟩ := Option.bind_eq_some_iff.1 h
          obtain ⟨entries, hentries, h⟩ := Option.bind_eq_some_iff.1 h
          cases h
          rw [AnnotationUse.constants, List.forall_mem_flatMap]
          intro a ha
          obtain ⟨m, -, hm⟩ := exists_of_mapM hentries (OrderedMap.mem_of_mem_ofList ha)
          obtain ⟨e, he, rfl⟩ := Option.map_eq_some_iff.1 hm
          exact Element.spelled_of_ofJson? _ m.2 e he
    next => cases h

end

end AnnotationGraph
