import AnnotationGraph.Program.Writer

/-!
# Records and alternatives read back

What a reader of the manifest does with a value as the writer makes it.  A reader is given the number
of arrays and objects that may still be opened; it reads a written value exactly if the value opens
no more than that at once, and then what it gives does not depend on the number.

* `Json.nesting`               how many arrays and objects a value has open at once;
* `Json.ReadsAs`               a reader gives one thing for a value at every sufficient depth;
* `ReadsAs.listOf`             arrays, item by item;
* `Json.record?_record`        records with their fields in order.
-/

namespace AnnotationGraph

namespace Json

/-! ### Nesting -/

mutual

/-- The number of arrays and objects that are open at once. -/
def nesting : Json → Nat
  | .array items => nestingOfItems items + 1
  | .object members => nestingOfMembers members + 1
  | _ => 0

def nestingOfItems : List Json → Nat
  | [] => 0
  | item :: items => max item.nesting (nestingOfItems items)

def nestingOfMembers : List (Option String × Json) → Nat
  | [] => 0
  | (_, value) :: members => max value.nesting (nestingOfMembers members)

end

theorem nestingOfItems_le_iff {items : List Json} {depth : Nat} :
    nestingOfItems items ≤ depth ↔ ∀ item ∈ items, item.nesting ≤ depth := by
  induction items with
  | nil => simp [nestingOfItems]
  | cons item items ih => rw [nestingOfItems, Nat.max_le, ih, List.forall_mem_cons]

theorem nestingOfMembers_le_iff {members : List (Option String × Json)} {depth : Nat} :
    nestingOfMembers members ≤ depth ↔ ∀ m ∈ members, m.2.nesting ≤ depth := by
  induction members with
  | nil => simp [nestingOfMembers]
  | cons m members ih => rw [nestingOfMembers, Nat.max_le, ih, List.forall_mem_cons]

@[simp] theorem nesting_text (s : String) : (text s).nesting = 0 := rfl
@[simp] theorem nesting_bool (b : Bool) : (Json.bool b).nesting = 0 := rfl
@[simp] theorem nesting_int (n : Int) : (int n).nesting = 0 := rfl
@[simp] theorem nesting_nat (n : Nat) : (nat n).nesting = 0 := rfl

theorem nesting_array_le {items : List Json} {depth : Nat} :
    (array items).nesting ≤ depth + 1 ↔ ∀ item ∈ items, item.nesting ≤ depth := by
  rw [nesting, Nat.add_le_add_iff_right, nestingOfItems_le_iff]

theorem nesting_record_le {members : List (String × Json)} {depth : Nat} :
    (record members).nesting ≤ depth + 1 ↔ ∀ m ∈ members, m.2.nesting ≤ depth := by
  rw [record, nesting, Nat.add_le_add_iff_right, nestingOfMembers_le_iff, List.forall_mem_map]

theorem nesting_record_pos (members : List (String × Json)) : 0 < (record members).nesting :=
  Nat.succ_pos _

@[simp] theorem text?_text (s : String) : (text s).text? = some s := rfl
@[simp] theorem bool?_bool (b : Bool) : (Json.bool b).bool? = some b := rfl

@[simp] theorem required_some {α : Type} (decode : Json → Option α) (json : Json) :
    required decode (some json) = decode json := rfl

@[simp] theorem defaulted_some {α : Type} (default : α) (decode : Json → Option α) (json : Json) :
    defaulted default decode (some json) = decode json := rfl

section

variable {α β : Type}

/-! ### Lists -/

theorem mapM_ite {p : β → Prop} [DecidablePred p] (g : β → Option α) (xs : List β) :
    xs.mapM (fun x => if p x then g x else none) =
      if ∀ x ∈ xs, p x then xs.mapM g else none := by
  induction xs with
  | nil => simp
  | cons x xs ih =>
    rw [List.mapM_cons, List.mapM_cons, ih]
    by_cases hx : p x
    · by_cases hxs : ∀ y ∈ xs, p y
      · rw [if_pos hx, if_pos hxs, if_pos (List.forall_mem_cons.2 ⟨hx, hxs⟩)]
      · rw [if_neg hxs, if_neg fun h => hxs (List.forall_mem_cons.1 h).2]
        simp
    · rw [if_neg hx, if_neg fun h => hx (List.forall_mem_cons.1 h).1]
      rfl

theorem mapM_congr {f g : β → Option α} {xs : List β} (h : ∀ x ∈ xs, f x = g x) :
    xs.mapM f = xs.mapM g := by
  induction xs with
  | nil => rfl
  | cons x xs ih =>
    obtain ⟨hx, hxs⟩ := List.forall_mem_cons.1 h
    rw [List.mapM_cons, List.mapM_cons, hx, ih hxs]

theorem mapM_some (xs : List α) : xs.mapM some = some xs :=
  (List.mapM_pure (m := Option) (f := id)).trans (congrArg some (List.map_id _))

theorem isSome_mapM_iff {g : β → Option α} {xs : List β} :
    (xs.mapM g).isSome ↔ ∀ x ∈ xs, (g x).isSome := by
  induction xs with
  | nil => simp
  | cons x xs ih =>
    rw [List.mapM_cons, List.forall_mem_cons, ← ih]
    cases g x <;> cases xs.mapM g <;> simp

theorem exists_mapM {g : β → Option α} {f : α → β} {xs : List β}
    (h : ∀ x ∈ xs, ∃ y, g x = some y ∧ f y = x) : ∃ ys, xs.mapM g = some ys ∧ ys.map f = xs := by
  induction xs with
  | nil => exact ⟨[], by simp⟩
  | cons x xs ih =>
    obtain ⟨hx, hxs⟩ := List.forall_mem_cons.1 h
    obtain ⟨y, hy, hfy⟩ := hx
    obtain ⟨ys, hys, hfys⟩ := ih hxs
    exact ⟨y :: ys, by simp [List.mapM_cons, hy, hys], by rw [List.map_cons, hfy, hfys]⟩

theorem exists_of_mapM {g : β → Option α} {xs : List β} {ys : List α}
    (h : xs.mapM g = some ys) {y : α} (hy : y ∈ ys) : ∃ x ∈ xs, g x = some y := by
  induction xs generalizing ys with
  | nil =>
    cases h
    cases hy
  | cons x xs ih =>
    rw [List.mapM_cons] at h
    obtain ⟨first, hfirst, h⟩ := Option.bind_eq_some_iff.1 h
    obtain ⟨rest, hrest, h⟩ := Option.bind_eq_some_iff.1 h
    cases h
    rcases List.mem_cons.1 hy with rfl | hy
    · exact ⟨x, List.mem_cons_self, hfirst⟩
    · obtain ⟨x', hx', hg⟩ := ih hrest hy
      exact ⟨x', List.mem_cons_of_mem _ hx', hg⟩

/-! ### Readers -/

/-- A reader gives `a?` for a value wherever it nests no deeper than allowed, and nothing elsewhere. -/
def ReadsAs (decode : Nat → Json → Option α) (json : Json) (a? : Option α) : Prop :=
  ∀ depth, decode depth json = if json.nesting ≤ depth then a? else none

theorem ReadsAs.mapM {decode : Nat → Json → Option α} {encode : β → Json} {a? : β → Option α}
    {xs : List β} (h : ∀ x ∈ xs, ReadsAs decode (encode x) (a? x)) (depth : Nat) :
    (xs.map encode).mapM (decode depth) =
      if ∀ x ∈ xs, (encode x).nesting ≤ depth then xs.mapM a? else none := by
  have heach : ∀ x ∈ xs, (decode depth ∘ encode) x =
      if (encode x).nesting ≤ depth then a? x else none := fun x hx => h x hx depth
  rw [List.mapM_map, mapM_congr heach, mapM_ite]

theorem ReadsAs.listOf {decode : Nat → Json → Option α} {encode : β → Json} {a? : β → Option α}
    {xs : List β} (h : ∀ x ∈ xs, ReadsAs decode (encode x) (a? x)) :
    ReadsAs (listOf? decode) (.array (xs.map encode)) (xs.mapM a?) := by
  intro depth
  cases depth with
  | zero => rfl
  | succ depth =>
    simp only [nesting_array_le, List.forall_mem_map]
    exact ReadsAs.mapM h depth

theorem ReadsAs.listOf_some {decode : Nat → Json → Option β} {encode : β → Json}
    (h : ∀ x, ReadsAs decode (encode x) (some x)) (xs : List β) :
    ReadsAs (listOf? decode) (.array (xs.map encode)) (some xs) := by
  have hlist := ReadsAs.listOf fun x (_ : x ∈ xs) => h x
  rwa [mapM_some] at hlist

end

/-! ### Records and alternatives -/

theorem members?_record (members : List (String × Json)) :
    (record members).members? = some members := by
  rw [record, members?, List.mapM_map]
  exact mapM_some members

theorem filter_fst_eq {members : List (String × Json)} (h : (members.map Prod.fst).Nodup)
    {m : String × Json} (hm : m ∈ members) : members.filter (·.1 = m.1) = [m] := by
  induction members with
  | nil => cases hm
  | cons first rest ih =>
    obtain ⟨hfirst, hrest⟩ := List.nodup_cons.1 h
    rcases List.mem_cons.1 hm with rfl | hm
    · have hnone : rest.filter (·.1 = m.1) = [] := by
        refine List.filter_eq_nil_iff.2 fun x hx heq => hfirst ?_
        exact of_decide_eq_true heq ▸ List.mem_map_of_mem hx
      rw [List.filter_cons_of_pos (by simp), hnone]
    · have hne : ¬first.1 = m.1 := fun heq => hfirst (heq ▸ List.mem_map_of_mem hm)
      rw [List.filter_cons_of_neg (by simpa using hne), ih hrest hm]

@[simp] theorem fields?_record {members : List (String × Json)} {names : List String}
    (hnames : members.map Prod.fst = names) (h : names.Nodup) :
    (record members).fields? names = some (members.map fun m => some m.2) := by
  subst hnames
  unfold fields?
  rw [members?_record, Option.bind_eq_bind, Option.bind_some, List.mapM_map]
  refine (mapM_congr fun m hm => ?_).trans (List.mapM_pure (m := Option))
  simp only [Function.comp_apply, filter_fst_eq h hm, Option.pure_def]

@[simp] theorem record?_record {members : List (String × Json)} {names : List String}
    (hnames : members.map Prod.fst = names) (h : names.Nodup) (depth : Nat) :
    (record members).record? names (depth + 1) = some (members.map fun m => some m.2) :=
  fields?_record hnames h

@[simp] theorem variant?_alternative (name : String) (content : Json) :
    (alternative name content).variant? = some (name, some content) := rfl

@[simp] theorem fits_alternative (name : String) (content : Json) (depth : Nat) :
    (alternative name content).fits depth = decide (0 < depth) := rfl

/-- A record opens an object around its fields. -/
theorem ReadsAs.of_record {α : Type} {decode : Nat → Json → Option α}
    {members : List (String × Json)} {a? : Option α} (hzero : decode 0 (record members) = none)
    (hsucc : ∀ depth, decode (depth + 1) (record members) =
      if ∀ m ∈ members, m.2.nesting ≤ depth then a? else none) :
    ReadsAs decode (record members) a? := by
  intro depth
  cases depth with
  | zero => rw [hzero, if_neg (Nat.not_le.2 (nesting_record_pos members))]
  | succ depth => simp only [hsucc, nesting_record_le]

theorem ReadsAs.of_alternative {α : Type} {decode : Nat → Json → Option α} {name : String}
    {content : Json} {a? : Option α} (hzero : decode 0 (alternative name content) = none)
    (hsucc : ∀ depth, decode (depth + 1) (alternative name content) =
      if content.nesting ≤ depth then a? else none) :
    ReadsAs decode (alternative name content) a? := by
  refine ReadsAs.of_record hzero fun depth => ?_
  rw [← alternative, hsucc]
  simp

theorem ReadsAs.of_content {α β : Type} {decode : Nat → Json → Option α}
    {inner : Nat → Json → Option β} {name : String} {content : Json} {a? : Option β} {f : β → α}
    (h : ReadsAs inner content a?) (hzero : decode 0 (alternative name content) = none)
    (hsucc : ∀ depth, decode (depth + 1) (alternative name content) = (inner depth content).map f) :
    ReadsAs decode (alternative name content) (a?.map f) := by
  refine ReadsAs.of_alternative hzero fun depth => ?_
  rw [hsucc, h depth, apply_ite (Option.map f), Option.map_none]

end Json

/-! ### References and calls -/

open Json

theorem MethodRef.readsAs (m : MethodRef) : ReadsAs MethodRef.ofJson? m.toJson (some m) := by
  refine ReadsAs.of_record rfl fun depth => ?_
  simp [MethodRef.ofJson?]

theorem FieldRef.readsAs (m : FieldRef) : ReadsAs FieldRef.ofJson? m.toJson (some m) := by
  refine ReadsAs.of_record rfl fun depth => ?_
  simp [FieldRef.ofJson?]

@[simp] theorem Json.word?_nat (n : UInt32) : (Json.nat n.toNat).word? = some n := by
  have hlt := n.toNat_lt
  have hinteger : (Numeral.ofInt n.toNat).integer? = some (n.toNat : Int) :=
    Numeral.integer?_ofInt n.toNat
  have hbound : (n.toNat : Int) ≤ 4294967295 := by omega
  simp [word?, natUpTo?, Json.nat, Json.int, integerIn?, hinteger, Option.filter, hbound]

theorem KnownObject.readsAs (o : KnownObject) : ReadsAs KnownObject.ofJson? o.toJson (some o) := by
  cases o with
  | classObject name => exact ReadsAs.of_alternative rfl fun depth => by simp [KnownObject.ofJson?]
  | constructor target => exact ReadsAs.of_content target.readsAs rfl fun _ => rfl
  | method target => exact ReadsAs.of_content target.readsAs rfl fun _ => rfl
  | field target => exact ReadsAs.of_content target.readsAs rfl fun _ => rfl
  | parameter declaring index =>
    refine ReadsAs.of_alternative rfl fun depth => ?_
    cases depth with
    | zero => rfl
    | succ depth =>
      by_cases h : declaring.toJson.nesting ≤ depth <;>
        simp [KnownObject.ofJson?, declaring.readsAs depth, nesting_record_le, h]

theorem ObjectKey.readsAs (k : ObjectKey) : ReadsAs ObjectKey.ofJson? k.toJson (some k) := by
  cases k with
  | known object => exact ReadsAs.of_content object.readsAs rfl fun _ => rfl
  | allocated type index =>
    refine ReadsAs.of_alternative rfl fun depth => ?_
    cases depth with
    | zero => rfl
    | succ depth =>
      simp [ObjectKey.ofJson?, nesting_record_le]
  | unknown => exact fun depth => rfl

theorem Dispatch.readsAs (d : Dispatch) : ReadsAs Dispatch.ofJson? d.toJson (some d) := by
  intro depth
  cases d <;> rfl

theorem Call.readsAs (c : Call) : ReadsAs Call.ofJson? c.toJson (some c) := by
  refine ReadsAs.of_record rfl fun depth => ?_
  have harguments := ReadsAs.listOf_some ObjectKey.readsAs c.arguments depth
  have hdispatch : c.dispatch.toJson.nesting = 0 := by cases c.dispatch <;> rfl
  by_cases h : (array (c.arguments.map ObjectKey.toJson)).nesting ≤ depth <;>
    simp [Call.ofJson?, c.dispatch.readsAs depth, hdispatch, harguments, h]

theorem Access.readsAs (a : Access) : ReadsAs Access.ofJson? a.toJson (some a) := by
  refine ReadsAs.of_record rfl fun depth => ?_
  simp [Access.ofJson?]

theorem Method.readsAs (m : Method) : ReadsAs Method.ofJson? m.toJson (some m) := by
  refine ReadsAs.of_record rfl fun depth => ?_
  have hcalls := ReadsAs.listOf_some Call.readsAs m.calls depth
  have haccess := m.access.readsAs depth
  by_cases ha : m.access.toJson.nesting ≤ depth
  · by_cases hc : (array (m.calls.map Call.toJson)).nesting ≤ depth <;>
      simp [Method.ofJson?, haccess, hcalls, ha, hc]
  · simp [Method.ofJson?, haccess, ha]

theorem Field.readsAs (f : Field) : ReadsAs Field.ofJson? f.toJson (some f) := by
  refine ReadsAs.of_record rfl fun depth => ?_
  simp [Field.ofJson?]

end AnnotationGraph
