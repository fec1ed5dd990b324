import AnnotationGraph.Proofs.ElementText
import AnnotationGraph.Proofs.JsonText

/-!
# Manifests read back

What the text of a manifest reads as.  The text of a manifest without floating-point constants reads
as the manifest, unless it nests too deep.  A manifest that was itself read from a text has no
constants but those that a text can spell, which leaves one kind of them that is not written so that
it reads: a number of 32 bits that was spelled too great and has become infinite.

* `Manifest.readsAs`                manifests at every depth of nesting;
* `Manifest.read?_text`             the text of a manifest;
* `Manifest.spelled_of_ofJson?`     the constants of a manifest that was read;
* `Manifest.read?_text_eq_some`     without floating-point constants the text reads as the manifest;
* `Manifest.isSome_read?_text_iff`  which manifests that were read have a text that reads.
-/

namespace AnnotationGraph

open Json

/-! ### Annotations, classes and manifests -/

namespace AnnotationUse

def reread (use : AnnotationUse) : Option AnnotationUse :=
  (ElementTree.rereadArguments (use.arguments.entries.map fun a => (a.1, a.2.tree))).map
    fun entries => ⟨use.type, .ofList entries⟩

theorem readsAs (use : AnnotationUse) : ReadsAs AnnotationUse.ofJson? use.toJson use.reread := by
  have h := ElementTree.readsAs_nested use.type
    (use.arguments.entries.map fun a => (a.1, a.2.tree)) fun a _ => a.2.readsAs
  rwa [ElementTree.annotationToJson, List.map_map] at h

theorem isSome_reread_iff (use : AnnotationUse) :
    use.reread.isSome ↔ ∀ c ∈ use.constants, c.reread.isSome := by
  have h := ElementTree.isSome_reread_iff
    (.nested use.type (use.arguments.entries.map fun a => (a.1, a.2.tree)))
  rw [ElementTree.reread, Option.isSome_map, ElementTree.constants,
    ElementTree.constantsOfArguments_eq_flatMap, List.flatMap_map] at h
  rwa [reread, Option.isSome_map]

theorem reread_eq_some (use : AnnotationUse) (h : ∀ c ∈ use.constants, c.reread = some c) :
    use.reread = some use := by
  have heach : ∀ a ∈ use.arguments.entries,
      (ElementTree.rereadArgument ∘ fun a => (a.1, a.2.tree)) a = some a := by
    intro a ha
    have hvalue := a.2.reread_eq_some fun c hc => h c (List.mem_flatMap.2 ⟨a, ha, hc⟩)
    rw [Function.comp_apply, ElementTree.rereadArgument, hvalue, Option.map_some]
  have hmap : OrderedMap.ofList use.arguments.entries = use.arguments :=
    OrderedMap.eq_of_entries (OrderedMap.ofList_entries use.arguments.ascending)
  rw [reread, ElementTree.rereadArguments_eq_mapM, List.mapM_map, mapM_congr heach, mapM_some,
    Option.map_some, hmap]

end AnnotationUse

namespace Class

def constants (c : Class) : List Constant := c.annotations.flatMap AnnotationUse.constants

def reread (c : Class) : Option Class :=
  (c.annotations.mapM AnnotationUse.reread).map fun uses => { c with annotations := uses }

theorem readsAs (c : Class) : ReadsAs Class.ofJson? c.toJson c.reread := by
  refine ReadsAs.of_record rfl fun depth => ?_
  have hsuper : (superNameToJson c.superName).nesting = 0 ∧
      superNameOfJson? (superNameToJson c.superName) = some c.superName := by
    cases c.superName <;> exact ⟨rfl, rfl⟩
  have hinterfaces : Json.listOf? (fun _ => text?) depth (array (c.interfaces.map Json.text)) =
      if (array (c.interfaces.map Json.text)).nesting ≤ depth then some c.interfaces else none :=
    ReadsAs.listOf_some (fun _ _ => rfl) c.interfaces depth
  have hannotations := ReadsAs.listOf (fun use (_ : use ∈ c.annotations) => use.readsAs) depth
  have hdeclared := ReadsAs.listOf_some Field.readsAs c.fields depth
  have hmethods := ReadsAs.listOf_some Method.readsAs c.methods depth
  simp (disch := simp) only [Class.ofJson?, record?_record, List.map_cons, List.map_nil,
    Option.bind_eq_bind, Option.bind_some, required_some, defaulted_some, text?_text, bool?_bool,
    hsuper, Nat.add_sub_cancel, List.forall_mem_cons, nesting_text, nesting_bool, Nat.zero_le,
    true_and, List.not_mem_nil, false_implies, implies_true, and_true]
  by_cases hi : (array (c.interfaces.map Json.text)).nesting ≤ depth
  · by_cases ha : (array (c.annotations.map AnnotationUse.toJson)).nesting ≤ depth
    · by_cases hf : (array (c.fields.map Field.toJson)).nesting ≤ depth
      · by_cases hm : (array (c.methods.map Method.toJson)).nesting ≤ depth
        · simp only [hinterfaces, hannotations, hdeclared, hmethods, hi, ha, hf, hm, if_true,
            Option.bind_some, and_self, reread]
          cases c.annotations.mapM AnnotationUse.reread <;> rfl
        · simp [hmethods, hm]
      · simp [hdeclared, hf]
    · simp [hannotations, ha]
  · simp [hinterfaces, hi]

theorem isSome_reread_iff (c : Class) :
    c.reread.isSome ↔ ∀ constant ∈ c.constants, constant.reread.isSome := by
  rw [reread, Option.isSome_map, isSome_mapM_iff, constants, List.forall_mem_flatMap]
  exact forall₂_congr fun use _ => use.isSome_reread_iff

theorem reread_eq_some (c : Class) (h : ∀ constant ∈ c.constants, constant.reread = some constant) :
    c.reread = some c := by
  rw [constants, List.forall_mem_flatMap] at h
  have heach : ∀ use ∈ c.annotations, use.reread = some use :=
    fun use huse => use.reread_eq_some (h use huse)
  rw [reread, mapM_congr heach, mapM_some, Option.map_some]

end Class

namespace Manifest

def constants (m : Manifest) : List Constant := m.classes.flatMap Class.constants

/-- What a manifest is read back as. -/
def reread (m : Manifest) : Option Manifest := (m.classes.mapM Class.reread).map Manifest.mk

theorem readsAs (m : Manifest) : ReadsAs Manifest.ofJson? m.toJson m.reread := by
  refine ReadsAs.of_record rfl fun depth => ?_
  have hclasses := ReadsAs.listOf (fun c (_ : c ∈ m.classes) => c.readsAs) depth
  simp (disch := simp) only [Manifest.ofJson?, record?_record, List.map_cons, List.map_nil,
    Option.bind_eq_bind, Option.bind_some, defaulted_some, Nat.add_sub_cancel, List.forall_mem_cons,
    List.not_mem_nil, false_implies, implies_true, and_true, hclasses]
  split
  · cases h : m.classes.mapM Class.reread <;> simp [reread, h]
  · rfl

theorem isSome_reread_iff (m : Manifest) :
    m.reread.isSome ↔ ∀ constant ∈ m.constants, constant.reread.isSome := by
  rw [reread, Option.isSome_map, isSome_mapM_iff, constants, List.forall_mem_flatMap]
  exact forall₂_congr fun c _ => c.isSome_reread_iff

theorem reread_eq_some (m : Manifest)
    (h : ∀ constant ∈ m.constants, constant.reread = some constant) : m.reread = some m := by
  rw [constants, List.forall_mem_flatMap] at h
  have heach : ∀ c ∈ m.classes, c.reread = some c := fun c hc => c.reread_eq_some (h c hc)
  rw [reread, mapM_congr heach, mapM_some, Option.map_some]

def text (m : Manifest) : String := m.toJson.compact

theorem read?_compact (json : Json) :
    Manifest.read? (.ofText json.compact) = Manifest.ofJson? depthLimit json := by
  rw [Manifest.read?, Json.read?_compact, Option.bind_eq_bind, Option.bind_some]

/-- The text of a manifest is read back, constant by constant, if it does not nest too deep. -/
theorem read?_text (m : Manifest) : Manifest.read? (.ofText m.text) =
    if m.toJson.nesting ≤ 127 then m.reread else none := by
  rw [text, read?_compact, m.readsAs, depthLimit]

end Manifest

/-! ### Manifests that were read -/

theorem Json.exists_of_listOf? {α : Type} {decode : Nat → Json → Option α} {depth : Nat}
    {json : Json} {xs : List α} (h : Json.listOf? decode depth json = some xs) {x : α} (hx : x ∈ xs) :
    ∃ depth' item, decode depth' item = some x := by
  cases depth with
  | zero => cases h
  | succ depth =>
    obtain ⟨items, -, h⟩ := Option.bind_eq_some_iff.1 h
    obtain ⟨item, -, hitem⟩ := exists_of_mapM h hx
    exact ⟨depth, item, hitem⟩

theorem Json.exists_of_defaulted {α : Type} {decode : Nat → Json → Option α} {depth : Nat}
    {field : Option Json} {xs : List α}
    (h : defaulted [] (Json.listOf? decode depth) field = some xs) {x : α} (hx : x ∈ xs) :
    ∃ depth' item, decode depth' item = some x := by
  cases field with
  | none =>
    cases h
    cases hx
  | some json => exact exists_of_listOf? h hx

theorem Class.spelled_of_ofJson? {depth : Nat} {json : Json} {c : Class}
    (h : Class.ofJson? depth json = some c) : ∀ constant ∈ c.constants, constant.Spelled := by
  obtain ⟨fields, -, h⟩ := Option.bind_eq_some_iff.1 h
  split at h
  next =>
    obtain ⟨name, -, h⟩ := Option.bind_eq_some_iff.1 h
    obtain ⟨superName, -, h⟩ := Option.bind_eq_some_iff.1 h
    obtain ⟨interfaces, -, h⟩ := Option.bind_eq_some_iff.1 h
    obtain ⟨annotations, hannotations, h⟩ := Option.bind_eq_some_iff.1 h
    obtain ⟨declared, -, h⟩ := Option.bind_eq_some_iff.1 h
    obtain ⟨methods, -, h⟩ := Option.bind_eq_some_iff.1 h
    obtain ⟨analyzed, -, h⟩ := Option.bind_eq_some_iff.1 h
    cases h
    rw [Class.constants, List.forall_mem_flatMap]
    intro use huse
    obtain ⟨depth', item, hitem⟩ := Json.exists_of_defaulted hannotations huse
    exact AnnotationUse.spelled_of_ofJson? depth' item use hitem
  next => cases h

namespace Manifest

theorem spelled_of_ofJson? {depth : Nat} {json : Json} {m : Manifest}
    (h : Manifest.ofJson? depth json = some m) : ∀ constant ∈ m.constants, constant.Spelled := by
  obtain ⟨fields, -, h⟩ := Option.bind_eq_some_iff.1 h
  split at h
  next =>
    obtain ⟨classes, hclasses, h⟩ := Option.bind_eq_some_iff.1 h
    cases h
    rw [constants, List.forall_mem_flatMap]
    intro c hc
    obtain ⟨depth', item, hitem⟩ := Json.exists_of_defaulted hclasses hc
    exact Class.spelled_of_ofJson? hitem
  next => cases h

/-! ### Texts that read back -/

/-- The text of a manifest without floating-point constants reads as the manifest. -/
theorem read?_text_eq_some (m : Manifest) (hfloat : ∀ c ∈ m.constants, c.isFloating = false)
    (hdepth : m.toJson.nesting ≤ 127) : Manifest.read? (.ofText m.text) = some m := by
  have hreread : m.reread = some m :=
    m.reread_eq_some fun c hc => Constant.reread_of_not_isFloating (hfloat c hc)
  rw [read?_text, if_pos hdepth, hreread]

def card : Manifest := ⟨[{
  name := "p/Card"
  superName := some objectClass
  interfaces := ["p/Face"]
  annotations := [⟨"p/Label", .ofList [
    ("letter", .constant (.char '\x0c')),
    ("numbers", .array [.constant (.byte (-128)), .constant (.long 9223372036854775807)]),
    ("origin", .nested ⟨"p/Origin", .ofList [("\"q\"", .constant (.string "é\\\n"))]⟩)]⟩]
  fields := [⟨"suit", "p/Suit"⟩]
  methods := [⟨"label", "()V", ⟨true, false, false⟩,
    [⟨classClass, "getAnnotation", "(Ljava/lang/Class;)Ljava/lang/annotation/Annotation;",
      .virtual, 4, [.known (.classObject "p/Card"), .allocated "p/Box" 2, .unknown]⟩]⟩]
  analyzed := true }]⟩

theorem read?_text_card : Manifest.read? (.ofText card.text) = some card :=
  read?_text_eq_some card (by decide +kernel) (by decide +kernel)

/-- Whatever text a manifest was read from, its written text reads exactly if it does not nest too
deep and no number of 32 bits has become infinite. -/
theorem isSome_read?_text_iff {input : Input} {m : Manifest} (h : Manifest.read? input = some m) :
    (Manifest.read? (.ofText m.text)).isSome ↔
      m.toJson.nesting ≤ 127 ∧ ∀ x, .float x ∈ m.constants → ¬x.Infinite := by
  obtain ⟨json, -, hm⟩ := Option.bind_eq_some_iff.1 h
  have hspelled := spelled_of_ofJson? hm
  have hreread : m.reread.isSome ↔ ∀ x, .float x ∈ m.constants → ¬x.Infinite := by
    rw [isSome_reread_iff]
    constructor
    · intro hall x hx
      exact (Constant.isSome_reread_iff (hspelled _ hx)).1 (hall _ hx) x rfl
    · intro hall c hc
      refine (Constant.isSome_reread_iff (hspelled c hc)).2 fun x hx => hall x ?_
      rwa [← hx]
  rw [read?_text]
  by_cases hdepth : m.toJson.nesting ≤ 127
  · rw [if_pos hdepth, hreread]
    exact ⟨fun hall => ⟨hdepth, hall⟩, fun hboth => hboth.2⟩
  · rw [if_neg hdepth]
    exact ⟨fun hsome => (nomatch hsome), fun hboth => absurd hboth.1 hdepth⟩

def oneArgument (value : Json) : Json := .record [("classes", .array [.record [
  ("name", .text "p/Card"),
  ("annotations", .array [.record [
    ("type_name", .text "p/Label"), ("named_arguments", .record [("value", value)])]])]])]

def single (n : Numeral) : Json := .alternative "const" (.alternative "float" (.number n))

def half : Manifest := ⟨[⟨"p/Card", none, [],
  [⟨"p/Label", .ofList [("value", .constant (.float ⟨0x3f000000⟩))]⟩], [], [], true⟩]⟩

theorem isSome_read?_text_half :
    Manifest.read? (.ofText (oneArgument (single ⟨false, 0, [5], none⟩)).compact) = some half ∧
      (Manifest.read? (.ofText half.text)).isSome := by
  have hread : Manifest.read? (.ofText (oneArgument (single ⟨false, 0, [5], none⟩)).compact) =
      some half := by
    rw [read?_compact]
    rfl
  have hconstants : half.constants = [.float ⟨0x3f000000⟩] := by decide +kernel
  refine ⟨hread, (isSome_read?_text_iff hread).2 ⟨by decide +kernel, fun x hx => ?_⟩⟩
  rw [hconstants, List.mem_singleton] at hx
  cases hx
  decide +kernel

def nestedArrays (value : Json) : Nat → Json
  | 0 => value
  | n + 1 => .alternative "array" (.array [nestedArrays value n])

/-- At the limit of nesting stands an annotation that leaves out its arguments. -/
def atLimit : Json := nestedArrays
  (.alternative "annotation" (.record [("type_name", .text "p/Outer"),
    ("named_arguments", .record [("value",
      .alternative "annotation" (.record [("type_name", .text "p/Inner")]))])])) 58

theorem exists_unreadable {json : Json}
    (h : (Manifest.ofJson? depthLimit json).map
      (fun m => (Manifest.ofJson? depthLimit m.toJson).isSome) = some false) :
    ∃ m, Manifest.read? (.ofText json.compact) = some m ∧ Manifest.read? (.ofText m.text) = none := by
  obtain ⟨m, hm, hnone⟩ := Option.map_eq_some_iff.1 h
  exact ⟨m, by rw [read?_compact, hm], by
    rw [text, read?_compact]
    exact Option.isSome_eq_false_iff.1 hnone |> Option.isNone_iff_eq_none.1⟩

/-- A number that has become infinite is written as null, and arguments that were left out are
written as an object, one level below the limit. -/
theorem text_not_closed :
    (∃ m, Manifest.read? (.ofText (oneArgument (single ⟨false, 1, [], some 39⟩)).compact) = some m ∧
      Manifest.read? (.ofText m.text) = none) ∧
    ∃ m, Manifest.read? (.ofText (oneArgument atLimit).compact) = some m ∧
      Manifest.read? (.ofText m.text) = none :=
  ⟨exists_unreadable (by decide +kernel), exists_unreadable (by decide +kernel)⟩

end Manifest

end AnnotationGraph
