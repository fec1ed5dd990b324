import AnnotationGraph.Lookup.Synthesizer
import AnnotationGraph.Proofs.StandIn

/-!
# What a body for an annotation consists of

A body that is not idle fills a stand-in: it allocates the stand-in, writes every argument into its
own field from a constant of its own, and gives the object back.

* `Body.Idle`, `Body.Fills`   what the two kinds of bodies consist of;
* `idle_empty`                the empty body is idle;
* `fills_ofUse`               the instructions for a stand-in fill it.
-/

namespace AnnotationGraph

/-! ### Arrays are held like their first items -/

/-- What is met when arrays are entered at their first items over and over. -/
def ElementTree.leading : ElementTree → ElementTree
  | .array (first :: _) => first.leading
  | t => t

theorem StandIn.fieldType_leading : ∀ t : ElementTree, fieldType t.leading = fieldType t
  | .array (first :: rest) => by
    rw [ElementTree.leading, fieldType]
    exact fieldType_leading first
  | .array [] => rfl
  | .constant _ => rfl
  | .enumConstant _ _ => rfl
  | .classLiteral _ => rfl
  | .nested _ _ => rfl

/-! ### The two kinds of bodies -/

structure Body.Idle (b : Body) : Prop where
  instructions : b.instructions = []
  constants : b.constants = .empty
  blocks : b.flow.blocks = []

/-- A body that allocates a stand-in, writes arguments into its fields and gives it back. -/
structure Body.Fills (b : Body) (standIn : ClassName) (object : Nat)
    (arguments : List (String × Element)) : Prop where
  instructions : b.instructions = ⟨0, .new object ⟨0, standIn⟩⟩
    :: (arguments.mapIdx fun i a =>
        ⟨i + 1, .put object (object + (i + 1)) ⟨standIn, a.1, StandIn.fieldType a.2.tree⟩⟩)
    ++ [⟨arguments.length + 1, .leave (some object)⟩]
  /-- a field for an array has the type of the leading item -/
  types : ∀ a ∈ arguments, StandIn.fieldType a.2.tree = StandIn.fieldType a.2.tree.leading
  operands : ∀ i a, arguments[i]? = some a → b.constant? (object + (i + 1)) = some a.2.text
  constants : b.constants.size = arguments.length

theorem Body.idle_empty (method : MethodRef) (context : Context) : (empty method context).Idle :=
  ⟨rfl, rfl, rfl⟩

theorem Body.Fills.instructions_ne_nil {b : Body} {standIn : ClassName} {object : Nat}
    {arguments : List (String × Element)} (hb : b.Fills standIn object arguments) :
    b.instructions ≠ [] := by
  rw [hb.instructions]
  simp

theorem Body.Fills.instruction_cases {b : Body} {standIn : ClassName} {object : Nat}
    {arguments : List (String × Element)} (hb : b.Fills standIn object arguments) {i : Instruction}
    (hi : i ∈ b.instructions) :
    i.action = .new object ⟨0, standIn⟩ ∨
      (∃ a ∈ arguments, ∃ value,
        i.action = .put object value ⟨standIn, a.1, StandIn.fieldType a.2.tree⟩) ∨
      i.action = .leave (some object) := by
  rw [hb.instructions, List.mem_append, List.mem_cons, List.mem_mapIdx, List.mem_singleton] at hi
  rcases hi with (rfl | ⟨j, hj, rfl⟩) | rfl
  · exact .inl rfl
  · exact .inr (.inl ⟨_, List.getElem_mem hj, _, rfl⟩)
  · exact .inr (.inr rfl)

/-! ### Filling a stand-in -/

theorem writes_eq (c : Class) (object : Nat) (arguments : List (String × Element)) :
    ∀ index, (∀ a ∈ arguments, c.field? a.1 = some (StandIn.field a)) →
      writes c object index arguments = .ok (arguments.mapIdx fun i a =>
        ⟨index + i, .put object (object + (index + i)) (c.fieldRef (StandIn.field a))⟩) := by
  induction arguments with
  | nil => exact fun _ _ => rfl
  | cons a rest ih =>
    intro index h
    have hrest := ih (index + 1) fun b hb => h b (List.mem_cons_of_mem _ hb)
    rw [writes, h a List.mem_cons_self, hrest, List.mapIdx_cons]
    show Except.ok (_ :: _) = _
    congr 3
    funext i b
    rw [Nat.add_assoc, Nat.add_comm 1 i]

theorem constantTexts_eq (arguments : List (String × Element)) :
    ∀ value, constantTexts value arguments = arguments.mapIdx fun i a => (value + i, a.2.text) := by
  induction arguments with
  | nil => exact fun _ => rfl
  | cons a rest ih =>
    intro value
    rw [constantTexts, ih, List.mapIdx_cons, Nat.add_zero]
    congr 2
    funext i b
    rw [Nat.add_assoc, Nat.add_comm 1 i]

theorem constantTexts_ascending (arguments : List (String × Element)) (value : Nat) :
    (constantTexts value arguments).Pairwise fun a b => compare a.1 b.1 = .lt := by
  rw [constantTexts_eq, List.pairwise_iff_getElem]
  intro i j hi hj hij
  rw [List.getElem_mapIdx, List.getElem_mapIdx]
  exact Nat.compare_eq_lt.2 (by omega)

theorem Hierarchy.firstFree_onClass (h : Hierarchy) :
    ∃ object, h.firstFree Operation.onClass.method = .ok object := by
  have hcount : Descriptor.parameterCount? Operation.onClass.method.descriptor = some 1 := by
    decide
  unfold Hierarchy.firstFree
  rw [hcount]
  exact ⟨_, rfl⟩

/-- The instructions for the stand-in of an annotation and the texts of its arguments fill the
stand-in. -/
theorem fills_ofUse (subject : ClassName) (use : AnnotationUse) (method : MethodRef)
    (context : Context) (object : Nat) :
    ∃ instructions,
      instructionsFor (StandIn.ofUse subject use) object use.arguments.entries = .ok instructions ∧
      (⟨method, context, instructions,
        .ofList (constantTexts (object + 1) use.arguments.entries)⟩ : Body).Fills
          (StandIn.name subject use.type) object use.arguments.entries := by
  have hputs := writes_eq (StandIn.ofUse subject use) object use.arguments.entries 1
    fun a ha => StandIn.field?_ofUse subject ha
  have hentries := OrderedMap.ofList_entries
    (constantTexts_ascending use.arguments.entries (object + 1))
  refine ⟨_, by rw [instructionsFor, hputs]; rfl, ?_⟩
  refine ⟨?_, fun a _ => (StandIn.fieldType_leading a.2.tree).symm, ?_, ?_⟩
  · show _ :: _ ++ _ = _
    congr 3
    funext i a
    rw [Nat.add_comm 1 i]
    rfl
  · intro i a ha
    obtain ⟨hi, rfl⟩ := List.getElem?_eq_some_iff.1 ha
    rw [Body.constant?, OrderedMap.get?_eq_some_iff, hentries, constantTexts_eq, List.mem_mapIdx]
    exact ⟨i, hi, by rw [Nat.add_comm i 1, Nat.add_assoc]⟩
  · rw [OrderedMap.size, hentries, constantTexts_eq, List.length_mapIdx]

end AnnotationGraph
