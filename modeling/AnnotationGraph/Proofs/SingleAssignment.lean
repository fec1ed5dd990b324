import AnnotationGraph.Proofs.Consistency
import AnnotationGraph.Proofs.DefUse
import AnnotationGraph.Proofs.FlowGraph
import Mathlib.Data.List.Perm.Subperm

/-!
# Values of a body are assigned once

The values of a body are numbered one after the other: first those that its method is given, then the
object that it allocates, then a constant for each argument.  Each is defined at one place at most
and before it is read, and the instructions are one block from the allocation to the way out.

* `Hierarchy.given`              the values that a method is given;
* `Body.WellFormed`              what holds of the values and the blocks of a body;
* `Body.Fills.definedAt_iff`, `.usedAt_iff`, `.isSome_constant?_iff`
                                 where the values of a body that fills a stand-in occur;
* `Synthesizer.body_wellFormed`  every body of a run is well-formed;
* `Synthesizer.body_within`      a bound on the numbers that occur in it.
-/

namespace AnnotationGraph

/-- The numbers of the values that a method is given: its receiver, if it has one, and its
parameters, counted from one. -/
def Hierarchy.given (h : Hierarchy) (m : MethodRef) : List Nat :=
  let receivers := if (h.method? m).any fun m => m.access.isStatic then 0 else 1
  List.range' 1 (receivers + (Descriptor.parameterCount? m.descriptor).getD 0)

/-- The values of a body are assigned once, and its instructions are one block. -/
structure Body.WellFormed (b : Body) (given : List Nat) : Prop where
  /-- what is given is neither a constant nor defined -/
  given_apart : ∀ v ∈ given, b.constant? v = none ∧ ∀ p, ¬ DefinedAt b.instructions p v
  constants_apart : ∀ p v, DefinedAt b.instructions p v → b.constant? v = none
  once : ∀ p q v, DefinedAt b.instructions p v → DefinedAt b.instructions q v → p = q
  /-- what is read is a constant or was defined before -/
  defined : ∀ p v, UsedAt b.instructions p v →
    (b.constant? v).isSome ∨ ∃ q < p, DefinedAt b.instructions q v
  /-- a constant is read by one instruction -/
  consumed : ∀ v, (b.constant? v).isSome → ∃ p, ∀ q, UsedAt b.instructions q v ↔ q = p
  numbered : b.instructions ≠ [] → ∀ v,
    (∃ p, DefinedAt b.instructions p v) ∨ (b.constant? v).isSome ↔
      given.length < v ∧ v ≤ given.length + 1 + b.constants.size
  idle : b.instructions = [] → b.flow = ⟨[], []⟩
  block : b.instructions ≠ [] → b.instructions.length = b.constants.size + 2 ∧
    b.flow = ⟨[⟨0, b.constants.size + 2, b.instructions⟩], []⟩ ∧ b.flow.exits.length = 1
  object : b.instructions ≠ [] → ∃ v, DefinedAt b.instructions 0 v ∧
    b.defUse.definition? v = some 0 ∧ b.defUse.usesOf v = List.range' 1 (b.constants.size + 1)

structure Body.Within (b : Body) (bound : Nat) : Prop where
  length : b.instructions.length ≤ bound
  indices : ∀ i ∈ b.instructions, i.index < bound
  results : ∀ p v, DefinedAt b.instructions p v → v < bound
  operands : ∀ p v, UsedAt b.instructions p v → v < bound
  constants : ∀ v, (b.constant? v).isSome → v < bound

theorem Body.Within.mono {b : Body} {bound bound' : Nat} (h : b.Within bound)
    (hle : bound ≤ bound') : b.Within bound' where
  length := h.length.trans hle
  indices i hi := (h.indices i hi).trans_le hle
  results p v hv := (h.results p v hv).trans_le hle
  operands p v hv := (h.operands p v hv).trans_le hle
  constants v hv := (h.constants v hv).trans_le hle

/-! ### Where values occur -/

namespace Body.Fills

variable {b : Body} {standIn : ClassName} {object p v : Nat} {arguments : List (String × Element)}

theorem getElem?_eq_some_iff (hb : b.Fills standIn object arguments) {i : Instruction} :
    b.instructions[p]? = some i ↔ p = 0 ∧ i = ⟨0, .new object ⟨0, standIn⟩⟩ ∨
      (∃ k a, arguments[k]? = some a ∧ p = k + 1 ∧
        i = ⟨k + 1, .put object (object + (k + 1)) ⟨standIn, a.1, StandIn.fieldType a.2.tree⟩⟩) ∨
      p = arguments.length + 1 ∧ i = ⟨arguments.length + 1, .leave (some object)⟩ := by
  rw [hb.instructions, getElem?_concat_iff, List.length_cons, List.length_mapIdx, ← or_assoc]
  apply or_congr_left
  cases p with
  | zero => simp [eq_comm]
  | succ k =>
    rw [List.getElem?_cons_succ, List.getElem?_mapIdx, Option.map_eq_some_iff]
    constructor
    · rintro ⟨a, ha, rfl⟩
      exact .inr ⟨k, a, ha, rfl, rfl⟩
    · rintro (⟨hk, _⟩ | ⟨j, a, ha, hk, rfl⟩)
      · exact nomatch hk
      · obtain rfl := Nat.succ.inj hk
        exact ⟨a, ha, rfl⟩

theorem definedAt_iff (hb : b.Fills standIn object arguments) :
    DefinedAt b.instructions p v ↔ p = 0 ∧ v = object := by
  constructor
  · rintro ⟨i, hi, hd⟩
    rcases hb.getElem?_eq_some_iff.1 hi with ⟨hp, rfl⟩ | ⟨k, a, _, _, rfl⟩ | ⟨_, rfl⟩
    · exact ⟨hp, (Option.some.inj hd).symm⟩
    · exact nomatch hd
    · exact nomatch hd
  · rintro ⟨rfl, rfl⟩
    exact ⟨_, hb.getElem?_eq_some_iff.2 (.inl ⟨rfl, rfl⟩), rfl⟩

theorem usedAt_iff (hb : b.Fills standIn object arguments) : UsedAt b.instructions p v ↔
    0 < p ∧ (p ≤ arguments.length + 1 ∧ v = object ∨ p ≤ arguments.length ∧ v = object + p) := by
  constructor
  · rintro ⟨i, hi, hu⟩
    rcases hb.getElem?_eq_some_iff.1 hi with ⟨_, rfl⟩ | ⟨k, a, ha, rfl, rfl⟩ | ⟨rfl, rfl⟩
    · exact nomatch hu
    · have hk := (List.getElem?_eq_some_iff.1 ha).1
      have hv : v = object ∨ v = object + (k + 1) := by simpa [Instruction.used] using hu
      omega
    · have hv : v = object := by simpa [Instruction.used] using hu
      omega
  · rintro ⟨hpos, hv⟩
    obtain ⟨k, rfl⟩ : ∃ k, p = k + 1 := ⟨p - 1, by omega⟩
    by_cases hk : k < arguments.length
    · refine ⟨_, hb.getElem?_eq_some_iff.2 (.inr (.inl ⟨k, _, List.getElem?_eq_getElem hk, rfl, rfl⟩)), ?_⟩
      have hmem : v = object ∨ v = object + (k + 1) := by omega
      simpa [Instruction.used] using hmem
    · obtain ⟨hlast, rfl⟩ : k = arguments.length ∧ v = object := by omega
      refine ⟨_, hb.getElem?_eq_some_iff.2 (.inr (.inr ⟨by rw [hlast], rfl⟩)), ?_⟩
      simp [Instruction.used]

theorem isSome_constant?_iff (hb : b.Fills standIn object arguments) :
    (b.constant? v).isSome ↔ object < v ∧ v ≤ object + arguments.length := by
  have hkeys : ∀ v, (b.constant? v).isSome ↔ v ∈ b.constants.keys := by
    intro v
    rw [Option.isSome_iff_exists, OrderedMap.keys, List.mem_map]
    constructor
    · rintro ⟨text, htext⟩
      exact ⟨_, OrderedMap.get?_eq_some_iff.1 htext, rfl⟩
    · rintro ⟨⟨_, text⟩, he, rfl⟩
      exact ⟨text, OrderedMap.get?_eq_some_iff.2 he⟩
  -- as many numbers as there are constants are known to be theirs, so there are no others
  have hsub : List.range' (object + 1) arguments.length ⊆ b.constants.keys := by
    intro v hv
    obtain ⟨hle, hlt⟩ := List.mem_range'_1.1 hv
    have hk : v - (object + 1) < arguments.length := by omega
    have htext := hb.operands _ _ (List.getElem?_eq_getElem hk)
    rw [← hkeys, show v = object + (v - (object + 1) + 1) by omega, htext]
    rfl
  have hlength : b.constants.keys.length = arguments.length := by
    rw [OrderedMap.keys, List.length_map]
    exact hb.constants
  have hperm := ((List.nodup_range' 1).subperm hsub).perm_of_length_le
    (by rw [hlength, List.length_range'])
  rw [hkeys, ← hperm.mem_iff, List.mem_range'_1]
  omega

theorem length_instructions (hb : b.Fills standIn object arguments) :
    b.instructions.length = arguments.length + 2 := by
  rw [hb.instructions, List.length_append, List.length_cons, List.length_mapIdx]
  rfl

theorem flow (hb : b.Fills standIn object arguments) :
    b.flow = ⟨[⟨0, arguments.length + 2, b.instructions⟩], []⟩ := by
  have hinner : ∀ i ∈ b.instructions.dropLast, i.isExit = false := by
    rw [hb.instructions, List.dropLast_concat]
    intro i hi
    rcases List.mem_cons.1 hi with rfl | hi
    · rfl
    · obtain ⟨k, hk, rfl⟩ := List.mem_mapIdx.1 hi
      rfl
  rw [← hb.length_instructions, b.flow_eq]
  exact FlowGraph.ofInstructions_straight hb.instructions_ne_nil hinner

theorem exits_flow (hb : b.Fills standIn object arguments) : b.flow.exits.length = 1 := by
  have hexit : Block.isExit ⟨0, arguments.length + 2, b.instructions⟩ = true := by
    show b.instructions.getLast?.any Instruction.isExit = true
    rw [hb.instructions, List.getLast?_concat]
    rfl
  rw [hb.flow]
  show ([Block.mk 0 (arguments.length + 2) b.instructions].filter Block.isExit).length = 1
  rw [List.filter_cons_of_pos hexit]
  rfl

theorem definition?_object (hb : b.Fills standIn object arguments) :
    b.defUse.definition? object = some 0 := by
  have hd := DefUse.covers_ofInstructions b.instructions
  refine (hd.definition object 0).2 ?_
  exact ⟨hb.definedAt_iff.2 ⟨rfl, rfl⟩, fun q hq => (hb.definedAt_iff.1 hq).1.le⟩

theorem usesOf_object (hb : b.Fills standIn object arguments) :
    b.defUse.usesOf object = List.range' 1 (arguments.length + 1) := by
  have hd := DefUse.covers_ofInstructions b.instructions
  apply (hd.ascending object).eq_of_mem_iff (List.pairwise_lt_range' 1)
  intro p
  rw [hd.uses, hb.usedAt_iff, List.mem_range'_1]
  omega

theorem wellFormed (hb : b.Fills standIn object arguments) {n : Nat} (hobject : object = n + 1) :
    b.WellFormed (List.range' 1 n) where
  given_apart v hv := by
    rw [List.mem_range'_1] at hv
    constructor
    · rw [← Option.not_isSome_iff_eq_none, hb.isSome_constant?_iff]
      omega
    · intro p
      rw [hb.definedAt_iff]
      omega
  constants_apart p v hv := by
    rw [hb.definedAt_iff] at hv
    rw [← Option.not_isSome_iff_eq_none, hb.isSome_constant?_iff]
    omega
  once p q v hp hq := by
    rw [hb.definedAt_iff] at hp hq
    omega
  defined p v hv := by
    rw [hb.usedAt_iff] at hv
    rw [hb.isSome_constant?_iff]
    by_cases hobject : v = object
    · exact .inr ⟨0, hv.1, hb.definedAt_iff.2 ⟨rfl, hobject⟩⟩
    · exact .inl (by omega)
  consumed v hv := by
    rw [hb.isSome_constant?_iff] at hv
    refine ⟨v - object, fun q => ?_⟩
    rw [hb.usedAt_iff]
    omega
  numbered _ v := by
    simp only [hb.definedAt_iff, hb.isSome_constant?_iff, hb.constants, List.length_range',
      exists_eq_left]
    omega
  idle hnil := absurd hnil hb.instructions_ne_nil
  block _ := by
    rw [show b.constants.size = arguments.length from hb.constants]
    exact ⟨hb.length_instructions, hb.flow, hb.exits_flow⟩
  object _ := by
    rw [show b.constants.size = arguments.length from hb.constants]
    exact ⟨object, hb.definedAt_iff.2 ⟨rfl, rfl⟩, hb.definition?_object, hb.usesOf_object⟩

theorem within (hb : b.Fills standIn object arguments) {n : Nat} (hobject : object = n + 1) :
    b.Within (n + b.constants.size + 2) := by
  rw [show b.constants.size = arguments.length from hb.constants]
  constructor
  · rw [hb.length_instructions]
    omega
  · intro i hi
    obtain ⟨p, hp⟩ := List.getElem?_of_mem hi
    rcases hb.getElem?_eq_some_iff.1 hp with ⟨_, rfl⟩ | ⟨k, a, ha, _, rfl⟩ | ⟨_, rfl⟩
    · exact Nat.succ_pos _
    · have hk := (List.getElem?_eq_some_iff.1 ha).1
      show k + 1 < _
      omega
    · show arguments.length + 1 < _
      omega
  · intro p v hv
    rw [hb.definedAt_iff] at hv
    omega
  · intro p v hv
    rw [hb.usedAt_iff] at hv
    omega
  · intro v hv
    rw [hb.isSome_constant?_iff] at hv
    omega

end Body.Fills

namespace Body.Idle

variable {b : Body}

theorem constant?_eq_none (hb : b.Idle) (v : Nat) : b.constant? v = none := by
  rw [Body.constant?, hb.constants]
  rfl

theorem not_definedAt (hb : b.Idle) (p v : Nat) : ¬ DefinedAt b.instructions p v := by
  rw [hb.instructions]
  exact fun h => Nat.not_lt_zero p h.lt

theorem not_usedAt (hb : b.Idle) (p v : Nat) : ¬ UsedAt b.instructions p v := by
  rw [hb.instructions]
  exact fun h => Nat.not_lt_zero p h.lt

theorem within (hb : b.Idle) (bound : Nat) : b.Within bound := by
  constructor
  · rw [hb.instructions]
    exact Nat.zero_le _
  · rw [hb.instructions]
    exact fun i hi => nomatch hi
  · exact fun p v hv => absurd hv (hb.not_definedAt p v)
  · exact fun p v hv => absurd hv (hb.not_usedAt p v)
  · intro v hv
    rw [hb.constant?_eq_none] at hv
    exact nomatch hv

theorem wellFormed (hb : b.Idle) (given : List Nat) : b.WellFormed given := by
  have hconstant := hb.constant?_eq_none
  have hdefined := hb.not_definedAt
  have hused := hb.not_usedAt
  constructor
  · exact fun v _ => ⟨hconstant v, fun p => hdefined p v⟩
  · exact fun p v _ => hconstant v
  · exact fun p q v hp => absurd hp (hdefined p v)
  · exact fun p v hv => absurd hv (hused p v)
  · intro v hv
    rw [hconstant, Option.isSome_none] at hv
    exact absurd hv Bool.false_ne_true
  · exact fun hne => absurd hb.instructions hne
  · intro _
    rw [b.flow_eq, hb.instructions]
    rfl
  · exact fun hne => absurd hb.instructions hne
  · exact fun hne => absurd hb.instructions hne

end Body.Idle

/-! ### The bodies of a run -/

theorem Hierarchy.length_given_onClass (h : Hierarchy) :
    (h.given Operation.onClass.method).length ≤ 2 := by
  have hcount : Descriptor.parameterCount? Operation.onClass.method.descriptor = some 1 := by
    decide +kernel
  unfold given
  rw [hcount, List.length_range']
  dsimp only [Option.getD_some]
  split <;> omega

theorem Hierarchy.given_of_firstFree {h : Hierarchy} {m : MethodRef} {object : Nat}
    (hfree : h.firstFree m = .ok object) : ∃ n, object = n + 1 ∧ h.given m = List.range' 1 n := by
  unfold Hierarchy.firstFree at hfree
  unfold Hierarchy.given
  cases hcount : Descriptor.parameterCount? m.descriptor with
  | none =>
    rw [hcount] at hfree
    exact nomatch hfree
  | some n =>
    rw [hcount] at hfree
    have hobject := Except.ok.inj hfree
    refine ⟨_, ?_, rfl⟩
    rw [← hobject, Nat.add_assoc, Nat.add_comm]
    rfl

namespace Synthesizer

variable {h : Hierarchy} {s s' : Synthesizer} {node : Node} {body : Body}

/-- Made-up classes declare no methods, so a method is static as the program says. -/
theorem Consistent.method? (hs : Consistent h s) (fresh : h.standIns = .empty) (m : MethodRef) :
    s.hierarchy.method? m = h.method? m := by
  unfold Hierarchy.method?
  rw [Hierarchy.lookup?_of_fresh fresh, Hierarchy.lookup?, hs.program]
  cases hp : h.program.lookup? m.owner with
  | some c => rfl
  | none =>
    cases hc : s.hierarchy.standIns.lookup? m.owner with
    | none => rfl
    | some c =>
      obtain ⟨subject, use, _, rfl⟩ := hs.registered _ _ hc
      rfl

theorem Consistent.firstFree (hs : Consistent h s) (fresh : h.standIns = .empty) (m : MethodRef) :
    s.hierarchy.firstFree m = h.firstFree m := by
  unfold Hierarchy.firstFree
  rw [hs.method? fresh]

theorem Consistent.numbered_of_new (hs : Consistent h s) (fresh : h.standIns = .empty)
    (ha : Answer s node (.ok (s.bodies.length, body)) s') :
    body.WellFormed (h.given body.method) ∧
      body.Within (body.constants.size + 4) := by
  obtain ⟨_, hmodeled, _⟩ := ha.stored
  have hle : (h.given body.method).length ≤ 2 := by
    rw [(hs.new_cases ha).1, Node.method_of_modeled? hmodeled]
    exact h.length_given_onClass
  obtain ⟨hmethod, _, subject, sought, _, ⟨_, hidle⟩ | ⟨use, object, hf, hfree, hfills⟩⟩ :=
    hs.new_cases ha
  · exact ⟨hidle.wellFormed _, hidle.within _⟩
  · have hd := (hs.declares_of_found hf).1
    rw [(hs.standIn hd).2.firstFree fresh, ← hmethod] at hfree
    obtain ⟨n, hobject, hgiven⟩ := Hierarchy.given_of_firstFree hfree
    rw [hgiven, List.length_range'] at hle
    rw [hgiven]
    exact ⟨hfills.wellFormed hobject, (hfills.within hobject).mono (by omega)⟩

theorem numbered_of_body (fresh : h.standIns = .empty) {requests : List Node} {id : Nat}
    (hb : (((ofHierarchy h).run requests).body node).1 = .ok (id, body)) :
    body.WellFormed (h.given body.method) ∧
      body.Within (body.constants.size + 4) := by
  obtain ⟨before, maker, _, _, hid, hmade, _⟩ := maker_of_body hb
  have hnew := body_answer ((ofHierarchy h).run before) maker
  rw [hmade, ← hid] at hnew
  exact ((consistent_ofHierarchy fresh).run before).numbered_of_new fresh hnew

/-- **Every body of a run is well-formed.**  What its method is given depends on the class of the
program that stands for the class of class objects. -/
theorem body_wellFormed (h : Hierarchy) (fresh : h.standIns = .empty) (requests : List Node)
    (node : Node) (id : Nat) (body : Body)
    (hb : (((ofHierarchy h).run requests).body node).1 = .ok (id, body)) :
    body.WellFormed (h.given body.method) :=
  (numbered_of_body fresh hb).1

/-- A stamp with a label, in a program where annotations of class objects are looked up without a
receiver. -/
def staticLookup : Hierarchy := .ofClasses
  [ ⟨classClass, some objectClass, [], [], [],
      [⟨Operation.methodName, Operation.descriptor, ⟨true, true, false⟩, []⟩], false⟩,
    ⟨"p/Stamp", none, [],
      [⟨"p/Label", .ofList [("text", .constant (.string "air")), ("price", .constant (.int 5))]⟩],
      [], [], true⟩,
    ⟨"p/Label", none, [], [], [], [], true⟩ ]

def stampBody : Body where
  method := Operation.onClass.method
  context := .lookup (.exact "p/Stamp" "p/Label")
  code := .ofInstructions
    [ ⟨0, .new 2 ⟨0, "synthetic/annotation/p_0Stamp$p_0Label"⟩⟩,
      ⟨1, .put 2 3 ⟨"synthetic/annotation/p_0Stamp$p_0Label", "price", integerClass⟩⟩,
      ⟨2, .put 2 4 ⟨"synthetic/annotation/p_0Stamp$p_0Label", "text", stringClass⟩⟩,
      ⟨3, .leave (some 2)⟩ ]
  constants := .ofList [(3, "5"), (4, "air")]

theorem body_wellFormed_stamp :
    staticLookup.standIns = .empty ∧
    (((ofHierarchy staticLookup).run []).body (Lookup.exact "p/Stamp" "p/Label").node).1
      = .ok (0, stampBody) ∧
    staticLookup.given stampBody.method = [1] ∧
    stampBody.WellFormed (staticLookup.given stampBody.method) := by
  have hb : (((ofHierarchy staticLookup).run []).body (Lookup.exact "p/Stamp" "p/Label").node).1
      = .ok (0, stampBody) := by decide +kernel
  exact ⟨rfl, hb, by decide +kernel, body_wellFormed staticLookup rfl [] _ 0 stampBody hb⟩

/-- The numbers in a body of a run are bounded by what it is given and how many constants it has.  So
words of 32 bits hold them as long as they hold the number of its constants and four more. -/
theorem body_within (h : Hierarchy) (fresh : h.standIns = .empty) (requests : List Node)
    (node : Node) (id : Nat) (body : Body)
    (hb : (((ofHierarchy h).run requests).body node).1 = .ok (id, body)) :
    body.Within (body.constants.size + 4) :=
  (numbered_of_body fresh hb).2

end Synthesizer

end AnnotationGraph
