import AnnotationGraph.Body.FlowGraph
import AnnotationGraph.Proofs.Maps
import Mathlib.Data.List.Basic

/-!
# The blocks of a flow graph

The blocks tile the instructions: each begins where the one before it stops, an instruction that
leaves the method stands at the end of a block and nowhere else, and only the last block may do
without one.  So no block goes on to another.

* `FlowGraph.blocksFrom`  the blocks, instruction by instruction;
* `Tiles`                 blocks tile instructions from a position on;
* `tiles_blocksFrom`      the blocks of instructions do;
* `blocks_ofInstructions` they are the blocks of the flow graph;
* `FlowGraph.Cuts`        a flow graph cuts instructions into blocks;
* `ofInstructions_cuts`   the flow graph of instructions does;
* `ofInstructions_straight`  instructions that leave at their end at the earliest are one block.
-/

namespace AnnotationGraph

/-- Blocks tile instructions of which the first stands at a position. -/
inductive Tiles : Nat → List Instruction → List Block → Prop
  | nil (start : Nat) : Tiles start [] []
  | cons {start stop : Nat} {inside rest : List Instruction} {blocks : List Block}
      (hne : inside ≠ []) (hstop : start + inside.length = stop)
      (hinner : ∀ i ∈ inside.dropLast, i.isExit = false)
      (hend : rest ≠ [] → inside.getLast?.any Instruction.isExit)
      (hrest : Tiles stop rest blocks) :
      Tiles start (inside ++ rest) (⟨start, stop, inside⟩ :: blocks)

/-- The blocks of instructions whose first one stands at a position, instruction by instruction. -/
def FlowGraph.blocksFrom (start : Nat) : List Instruction → List Block
  | [] => []
  | i :: rest =>
    match blocksFrom (start + 1) rest with
    | [] => [⟨start, start + 1, [i]⟩]
    | b :: bs =>
      if i.isExit then ⟨start, start + 1, [i]⟩ :: b :: bs
      else ⟨start, b.stop, i :: b.instructions⟩ :: bs

theorem tiles_blocksFrom (l : List Instruction) :
    ∀ start, Tiles start l (FlowGraph.blocksFrom start l) := by
  induction l with
  | nil => exact fun start => .nil start
  | cons i rest ih =>
    intro start
    have hrest := ih (start + 1)
    unfold FlowGraph.blocksFrom
    generalize FlowGraph.blocksFrom (start + 1) rest = blocks at hrest
    cases hrest with
    | nil => exact .cons (List.cons_ne_nil i []) rfl (by simp) (by simp) (.nil _)
    | @cons _ stop inside after blocks hne hstop hinner hend hafter =>
      dsimp only
      by_cases hexit : i.isExit
      · rw [if_pos hexit]
        exact .cons (List.cons_ne_nil i []) rfl (by simp) (fun _ => by simpa using hexit)
          (.cons hne hstop hinner hend hafter)
      · -- the instruction joins the block that follows it
        rw [if_neg hexit]
        refine .cons (List.cons_ne_nil i inside) ?_ ?_ ?_ hafter
        · rw [List.length_cons]
          omega
        · rw [List.dropLast_cons_of_ne_nil hne]
          intro j hj
          rcases List.mem_cons.1 hj with rfl | hj
          · exact Bool.eq_false_iff.2 hexit
          · exact hinner j hj
        · rw [List.getLast?_cons_of_ne_nil hne]
          exact hend

namespace Tiles

variable {start : Nat} {l : List Instruction} {blocks : List Block}

theorem eq_nil (h : Tiles start [] blocks) : blocks = [] := by
  generalize hl : ([] : List Instruction) = l at h
  cases h with
  | nil => rfl
  | cons hne => exact absurd (List.append_eq_nil_iff.1 hl.symm).1 hne

theorem seams (h : Tiles start l blocks) :
    blocks.map Block.start ++ [start + l.length] = start :: blocks.map Block.stop := by
  induction h with
  | nil => rfl
  | cons hne hstop hinner hend hrest ih =>
    rw [List.map_cons, List.map_cons, ← ih, List.length_append, ← hstop, Nat.add_assoc]
    rfl

theorem joined (h : Tiles start l blocks) : blocks.flatMap Block.instructions = l := by
  induction h with
  | nil => rfl
  | cons hne hstop hinner hend hrest ih => rw [List.flatMap_cons, ih]

theorem slice (h : Tiles start l blocks) : ∀ b ∈ blocks, start ≤ b.start ∧ b.start < b.stop ∧
    b.stop ≤ start + l.length ∧ b.instructions = l.extract (b.start - start) (b.stop - start) := by
  induction h with
  | nil => exact fun b hb => nomatch hb
  | @cons start stop inside rest blocks hne hstop hinner hend hrest ih =>
    have hpos : 0 < inside.length := List.length_pos_of_ne_nil hne
    intro b hb
    rw [List.length_append]
    rcases List.mem_cons.1 hb with rfl | hb
    · refine ⟨Nat.le_refl _, by dsimp only; omega, by dsimp only; omega, ?_⟩
      dsimp only
      rw [Nat.sub_self, ← hstop, Nat.add_sub_cancel_left, List.extract_eq_take_drop]
      simp
    · obtain ⟨hle, hlt, hbound, hinside⟩ := ih b hb
      refine ⟨by omega, hlt, by omega, ?_⟩
      have hfrom : b.start - start = inside.length + (b.start - stop) := by omega
      have hlen : b.stop - stop - (b.start - stop)
          = b.stop - start - (inside.length + (b.start - stop)) := by omega
      rw [hinside, List.extract_eq_take_drop, List.extract_eq_take_drop, hfrom,
        List.drop_length_add_append, hlen]

theorem inner (h : Tiles start l blocks) :
    ∀ b ∈ blocks, ∀ i ∈ b.instructions.dropLast, i.isExit = false := by
  induction h with
  | nil => exact fun b hb => nomatch hb
  | cons hne hstop hinner hend hrest ih =>
    intro b hb
    rcases List.mem_cons.1 hb with rfl | hb
    · exact hinner
    · exact ih b hb

theorem exits (h : Tiles start l blocks) : ∀ b ∈ blocks.dropLast, b.isExit := by
  induction h with
  | nil => exact fun b hb => nomatch hb
  | @cons start stop inside rest blocks hne hstop hinner hend hrest ih =>
    intro b hb
    by_cases hblocks : blocks = []
    · rw [hblocks] at hb
      exact nomatch hb
    · rw [List.dropLast_cons_of_ne_nil hblocks] at hb
      rcases List.mem_cons.1 hb with rfl | hb
      · refine hend fun hnil => hblocks ?_
        rw [hnil] at hrest
        exact hrest.eq_nil
      · exact ih b hb

theorem stop_of_not_exit (h : Tiles start l blocks) :
    ∀ b ∈ blocks, b.isExit = false → b.stop = start + l.length := by
  induction h with
  | nil => exact fun b hb => nomatch hb
  | @cons start stop inside rest blocks hne hstop hinner hend hrest ih =>
    intro b hb hexit
    rw [List.length_append, ← Nat.add_assoc, hstop]
    rcases List.mem_cons.1 hb with rfl | hb
    · have hnil : rest = [] := by
        by_contra hsome
        exact absurd (hend hsome) (Bool.eq_false_iff.1 hexit)
      rw [hnil]
      rfl
    · exact ih b hb hexit

theorem next?_eq_none (h : Tiles start l blocks) {b : Block} (hb : b ∈ blocks) :
    FlowGraph.next? blocks b = none := by
  unfold FlowGraph.next?
  cases hexit : b.isExit with
  | true => rfl
  | false =>
    have hnone : blocks.find? (·.start = b.stop) = none := by
      rw [List.find?_eq_none]
      intro c hc
      obtain ⟨_, hlt, hbound, _⟩ := h.slice c hc
      have hstop := h.stop_of_not_exit b hb hexit
      simp only [decide_eq_true_eq]
      omega
    rw [hnone]
    rfl

theorem countP_inside {inside : List Instruction} (hinner : ∀ i ∈ inside.dropLast, i.isExit = false) :
    inside.countP Instruction.isExit = if inside.getLast?.any Instruction.isExit then 1 else 0 := by
  rcases List.eq_nil_or_concat inside with rfl | ⟨front, last, rfl⟩
  · rfl
  · rw [List.concat_eq_append, List.dropLast_concat] at hinner
    have hfront : front.countP Instruction.isExit = 0 := by
      rw [List.countP_eq_zero]
      exact fun i hi => Bool.eq_false_iff.1 (hinner i hi)
    rw [List.concat_eq_append, List.countP_append, hfront, List.getLast?_concat, Nat.zero_add,
      List.countP_singleton, Option.any_some]

theorem countP (h : Tiles start l blocks) :
    blocks.countP Block.isExit = l.countP Instruction.isExit := by
  induction h with
  | nil => rfl
  | @cons start stop inside rest blocks hne hstop hinner hend hrest ih =>
    rw [List.countP_cons, List.countP_append, countP_inside hinner, ih, Nat.add_comm]
    rfl

end Tiles

/-! ### Leaders -/

namespace FlowGraph

theorem afterExits_append (start : Nat) (l m : List Instruction) :
    afterExits start (l ++ m) = afterExits start l ++ afterExits (start + l.length) m := by
  unfold afterExits
  rw [List.zipIdx_append, List.filter_append, List.map_append]

theorem afterExits_eq_nil {l : List Instruction} (h : ∀ i ∈ l, i.isExit = false) (start : Nat) :
    afterExits start l = [] := by
  unfold afterExits
  rw [List.map_eq_nil_iff, List.filter_eq_nil_iff]
  intro e he
  rw [h e.1 (List.fst_mem_of_mem_zipIdx he)]
  exact Bool.false_ne_true

theorem afterExits_inside {inside : List Instruction}
    (hinner : ∀ i ∈ inside.dropLast, i.isExit = false) (start : Nat) :
    afterExits start inside =
      if inside.getLast?.any Instruction.isExit then [start + inside.length] else [] := by
  rcases List.eq_nil_or_concat inside with rfl | ⟨front, last, rfl⟩
  · rfl
  · rw [List.concat_eq_append, List.dropLast_concat] at hinner
    rw [List.concat_eq_append, afterExits_append, afterExits_eq_nil hinner, List.nil_append,
      List.getLast?_concat, Option.any_some, List.length_append, List.length_singleton]
    cases hexit : last.isExit with
    | true => simp [afterExits, hexit, Nat.add_assoc]
    | false => simp [afterExits, hexit]

theorem lt_of_mem_afterExits {l : List Instruction} {start position : Nat}
    (h : position ∈ afterExits start l) : start < position := by
  unfold afterExits at h
  obtain ⟨e, he, rfl⟩ := List.mem_map.1 h
  have hle := List.le_snd_of_mem_zipIdx (List.mem_filter.1 he).1
  omega

theorem afterExits_ascending (l : List Instruction) :
    ∀ start, (afterExits start l).Pairwise (· < ·) := by
  induction l with
  | nil => exact fun _ => .nil
  | cons i rest ih =>
    intro start
    rw [← List.singleton_append, afterExits_append, List.pairwise_append]
    refine ⟨?_, ih _, ?_⟩
    · cases hexit : i.isExit with
      | true => simp [afterExits, hexit]
      | false => simp [afterExits, hexit]
    · intro a ha b hb
      have hlt := lt_of_mem_afterExits hb
      have heq : a = start + 1 := by
        cases hexit : i.isExit with
        | true => simpa [afterExits, hexit] using ha
        | false => simp [afterExits, hexit] at ha
      rw [List.length_singleton] at hlt
      omega

/-- The leaders are the first position and those after exits, as far as there are instructions. -/
theorem leaders_eq (l : List Instruction) :
    leaders l = (0 :: afterExits 0 l).filter (· < l.length) := by
  have hasc : (0 :: afterExits 0 l).Pairwise fun a b => compare a b = .lt := by
    refine List.pairwise_cons.2 ⟨fun a ha => ?_, ?_⟩
    · exact Nat.compare_eq_lt.2 (lt_of_mem_afterExits ha)
    · exact (afterExits_ascending l 0).imp Nat.compare_eq_lt.2
  unfold leaders
  rw [OrderedSet.keys_ofList hasc]

end FlowGraph

namespace Tiles

variable {start : Nat} {l : List Instruction} {blocks : List Block}

theorem starts (h : Tiles start l blocks) : blocks.map Block.start =
    (start :: FlowGraph.afterExits start l).filter (· < start + l.length) := by
  induction h with
  | nil => simp [FlowGraph.afterExits]
  | @cons start stop inside rest blocks hne hstop hinner hend hrest ih =>
    have hpos : 0 < inside.length := List.length_pos_of_ne_nil hne
    have hlength : start + (inside ++ rest).length = stop + rest.length := by
      rw [List.length_append, ← hstop, Nat.add_assoc]
    have hstart : ∀ later, (start :: later).filter (· < stop + rest.length)
        = start :: later.filter (· < stop + rest.length) :=
      fun later => List.filter_cons_of_pos (decide_eq_true (by omega))
    rw [List.map_cons, ih, FlowGraph.afterExits_append, FlowGraph.afterExits_inside hinner, hstop,
      hlength, hstart]
    by_cases hnil : rest = []
    · rw [hnil]
      split
      · rfl
      · simp [FlowGraph.afterExits]
    · rw [if_pos (hend hnil)]
      rfl

end Tiles

namespace FlowGraph

theorem blocksAt_starts {l : List Instruction} {blocks : List Block}
    (hslices : ∀ b ∈ blocks, b.instructions = l.extract b.start b.stop) : ∀ first,
    blocks.map Block.start ++ [l.length] = first :: blocks.map Block.stop →
      blocksAt l (blocks.map Block.start) = blocks := by
  induction blocks with
  | nil => exact fun _ _ => rfl
  | cons b rest ih =>
    intro first hseams
    have hrest : rest.map Block.start ++ [l.length] = b.stop :: rest.map Block.stop :=
      (List.cons.inj hseams).2
    have hstop : (rest.map Block.start).headD l.length = b.stop := by
      cases rest with
      | nil => exact (List.cons.inj hrest).1
      | cons c _ => exact (List.cons.inj hrest).1
    rw [List.map_cons, blocksAt, hstop, ih (fun c hc => hslices c (List.mem_cons_of_mem _ hc)) _ hrest,
      ← hslices b List.mem_cons_self]

theorem blocksAt_leaders {l : List Instruction} {blocks : List Block} (h : Tiles 0 l blocks) :
    blocksAt l (leaders l) = blocks := by
  have hstarts := h.starts
  have hseams := h.seams
  rw [Nat.zero_add] at hstarts hseams
  rw [leaders_eq, ← hstarts]
  exact blocksAt_starts (fun b hb => (h.slice b hb).2.2.2) 0 hseams

end FlowGraph

namespace FlowGraph

/-- A flow graph cuts a list of instructions into blocks. -/
structure Cuts (g : FlowGraph) (l : List Instruction) : Prop where
  /-- the blocks begin at the first position, each where the one before it stops, and the last one
  stops at the end -/
  seams : g.blocks.map Block.start ++ [l.length] = 0 :: g.blocks.map Block.stop
  nonempty : ∀ b ∈ g.blocks, b.start < b.stop
  /-- a block has the instructions between its two positions -/
  slices : ∀ b ∈ g.blocks, b.instructions = l.extract b.start b.stop
  joined : g.blocks.flatMap Block.instructions = l
  /-- an instruction that leaves the method is the last one of its block -/
  inner : ∀ b ∈ g.blocks, ∀ i ∈ b.instructions.dropLast, i.isExit = false
  /-- every block but the last one leaves the method -/
  leaving : ∀ b ∈ g.blocks.dropLast, b.isExit
  edges : g.edges = []
  exits : g.exits.length = l.countP Instruction.isExit

theorem blocks_ofInstructions (l : List Instruction) :
    (ofInstructions l).blocks = blocksFrom 0 l :=
  blocksAt_leaders (tiles_blocksFrom l 0)

theorem tiles_ofInstructions (l : List Instruction) : Tiles 0 l (ofInstructions l).blocks := by
  rw [blocks_ofInstructions]
  exact tiles_blocksFrom l 0

theorem edges_ofInstructions (l : List Instruction) : (ofInstructions l).edges = [] := by
  show (ofInstructions l).blocks.filterMap _ = []
  rw [List.filterMap_eq_nil_iff]
  intro b hb
  show (next? (ofInstructions l).blocks b).map _ = none
  rw [(tiles_ofInstructions l).next?_eq_none hb]
  rfl

theorem blocksFrom_straight {l : List Instruction} (hne : l ≠ [])
    (hinner : ∀ i ∈ l.dropLast, i.isExit = false) :
    ∀ start, blocksFrom start l = [⟨start, start + l.length, l⟩] := by
  induction l with
  | nil => exact absurd rfl hne
  | cons i rest ih =>
    intro start
    by_cases hrest : rest = []
    · rw [hrest]
      rfl
    · rw [List.dropLast_cons_of_ne_nil hrest, List.forall_mem_cons] at hinner
      unfold blocksFrom
      rw [ih hrest hinner.2 (start + 1)]
      dsimp only
      rw [if_neg (Bool.eq_false_iff.1 hinner.1), List.length_cons, Nat.add_comm rest.length,
        ← Nat.add_assoc]

theorem ofInstructions_straight {l : List Instruction} (hne : l ≠ [])
    (hinner : ∀ i ∈ l.dropLast, i.isExit = false) :
    ofInstructions l = ⟨[⟨0, l.length, l⟩], []⟩ := by
  have hblocks := blocksFrom_straight hne hinner 0
  rw [Nat.zero_add] at hblocks
  show FlowGraph.mk (ofInstructions l).blocks (ofInstructions l).edges = _
  rw [blocks_ofInstructions, hblocks, edges_ofInstructions]

/-- **The flow graph of instructions cuts them into blocks.** -/
theorem ofInstructions_cuts (l : List Instruction) : (ofInstructions l).Cuts l := by
  have h := tiles_ofInstructions l
  constructor
  · have hseams := h.seams
    rw [Nat.zero_add] at hseams
    exact hseams
  · exact fun b hb => (h.slice b hb).2.1
  · exact fun b hb => (h.slice b hb).2.2.2
  · exact h.joined
  · exact h.inner
  · exact h.exits
  · exact edges_ofInstructions l
  · rw [← h.countP, List.countP_eq_length_filter]
    rfl

end FlowGraph

end AnnotationGraph
