import AnnotationGraph.Proofs.Acceptance
import AnnotationGraph.Proofs.Analysis
import Mathlib.Data.List.Pairwise

/-!
# The last class of a name counts

In the hierarchy of a list of classes a name means the last class of that name in the list, and a
platform class if there is none.  Nothing else of the list is kept, so an analysis does not depend on
the order in which classes with different names are given: it is that of the classes in the order of
their names, each name once.

* `Program.last?`                   the last class of a name;
* `Hierarchy.lookup?_ofClasses`     what a name means in the hierarchy of a list of classes;
* `Hierarchy.ofClasses_congr`       the last classes decide on the hierarchy;
* `Program.normal`                  the last classes in the order of their names;
* `Analysis.run_normal`             the analysis of a list of classes.
-/

namespace AnnotationGraph

namespace Program

variable {classes others before after : List Class} {c : Class} {name : ClassName}

/-! ### Last classes -/

def last? (classes : List Class) (name : ClassName) : Option Class :=
  classes.findRev? fun c => c.name = name

theorem last?_cons (c : Class) (rest : List Class) (name : ClassName) :
    last? (c :: rest) name = (last? rest name).or (if c.name = name then some c else none) := by
  unfold last?
  rw [List.findRev?]
  cases rest.findRev? fun c => c.name = name with
  | none => simp
  | some d => rfl

theorem last?_append (before after : List Class) (name : ClassName) :
    last? (before ++ after) name = (last? after name).or (last? before name) := by
  induction before with
  | nil =>
    show last? after name = (last? after name).or none
    rw [Option.or_none]
  | cons c rest ih => rw [List.cons_append, last?_cons, ih, last?_cons, Option.or_assoc]

theorem mem_of_last? (h : last? classes name = some c) : c ∈ classes ∧ c.name = name := by
  unfold last? at h
  rw [List.findRev?_eq_find?_reverse] at h
  exact ⟨List.mem_reverse.1 (List.mem_of_find?_eq_some h), by simpa using List.find?_some h⟩

theorem last?_eq_none_iff : last? classes name = none ↔ ∀ c ∈ classes, c.name ≠ name := by
  unfold last?
  rw [List.findRev?_eq_find?_reverse]
  simp

theorem last?_insert (hc : c.name ≠ name) :
    last? (before ++ c :: after) name = last? (before ++ after) name := by
  rw [last?_append, last?_append, last?_cons, if_neg hc, Option.or_none]

/-! ### The classes in the order of their names -/

/-- The last class of each name, in the order of the names. -/
def normal (classes : List Class) : List Class :=
  Manifest.sorted (classes.pwFilter fun a b => a.name ≠ b.name)

/-- A class is the last of its name exactly if it is left when older ones of one name are left out. -/
theorem mem_pwFilter_iff : c ∈ classes.pwFilter (fun a b => a.name ≠ b.name) ↔
    last? classes c.name = some c := by
  have hfree : ∀ (d : Class) (rest : List Class),
      (∀ b ∈ rest.pwFilter (fun a b => a.name ≠ b.name), d.name ≠ b.name) ↔
        last? rest d.name = none := by
    intro d rest
    rw [List.forall_mem_pwFilter, last?_eq_none_iff]
    · exact ⟨fun h b hb => (h b hb).symm, fun h b hb => (h b hb).symm⟩
    · intro x y z hxz
      by_cases hxy : x.name = y.name
      · exact .inr (hxy ▸ hxz)
      · exact .inl hxy
  induction classes with
  | nil => exact ⟨fun h => (nomatch h), fun h => (nomatch h)⟩
  | cons d rest ih =>
    rw [last?_cons]
    cases hlast : last? rest d.name with
    | none =>
      rw [List.pwFilter_cons_of_pos ((hfree d rest).2 hlast), List.mem_cons]
      refine (or_congr Iff.rfl ih).trans ?_
      by_cases hname : d.name = c.name
      · rw [if_pos hname, ← hname, hlast, Option.none_or, Option.some.injEq]
        exact ⟨fun h => h.elim Eq.symm fun hnone => (nomatch hnone), fun h => .inl h.symm⟩
      · have hne : c ≠ d := fun heq => hname (heq ▸ rfl)
        rw [if_neg hname, Option.or_none]
        exact ⟨fun h => h.resolve_left hne, .inr⟩
    | some e =>
      have hnot : ¬ ∀ b ∈ rest.pwFilter (fun a b => a.name ≠ b.name), d.name ≠ b.name :=
        fun hnone => nomatch hlast.symm.trans ((hfree d rest).1 hnone)
      rw [List.pwFilter_cons_of_neg hnot]
      refine ih.trans ?_
      by_cases hname : d.name = c.name
      · rw [← hname, hlast]
        rfl
      · rw [if_neg hname, Option.or_none]

theorem mem_normal_iff : c ∈ normal classes ↔ last? classes c.name = some c := by
  unfold normal
  rw [(Manifest.sorted_perm _).mem_iff, mem_pwFilter_iff]

theorem pairwise_normal (classes : List Class) :
    (normal classes).Pairwise fun a b => a.name < b.name := by
  apply Manifest.ascending_sorted
  rw [List.Nodup, List.pairwise_map]
  exact List.pairwise_pwFilter _

theorem last?_normal (classes : List Class) (name : ClassName) :
    last? (normal classes) name = last? classes name := by
  have hself : (normal classes).pwFilter (fun a b => a.name ≠ b.name) = normal classes :=
    List.pwFilter_eq_self.2 ((pairwise_normal classes).imp ne_of_lt)
  have hmem : ∀ c : Class, last? (normal classes) c.name = some c ↔ last? classes c.name = some c := by
    intro c
    rw [← mem_pwFilter_iff, hself, mem_normal_iff]
  apply Option.ext
  intro c
  constructor
  · intro h
    obtain ⟨_, rfl⟩ := mem_of_last? h
    exact (hmem c).1 h
  · intro h
    obtain ⟨_, rfl⟩ := mem_of_last? h
    exact (hmem c).2 h

end Program

/-! ### The hierarchy of a list of classes -/

open Program (last? normal)

namespace ClassSpace

theorem lookup?_foldl_insert (classes : List Class) : ∀ (s : ClassSpace) (name : ClassName),
    (classes.foldl .insert s).lookup? name = (last? classes name).or (s.lookup? name) := by
  induction classes with
  | nil => exact fun s name => rfl
  | cons c rest ih =>
    intro s name
    rw [List.foldl_cons, ih, lookup?_insert, Program.last?_cons, Option.or_assoc]
    by_cases hname : c.name = name
    · rw [if_pos hname, if_pos hname.symm]
      rfl
    · rw [if_neg hname, if_neg (Ne.symm hname)]
      rfl

end ClassSpace

namespace Hierarchy

theorem lookup?_ofClasses (classes : List Class) (name : ClassName) :
    (ofClasses classes).program.lookup? name
      = (last? classes name).or (platformClasses.find? fun c => c.name = name) := by
  unfold ofClasses
  generalize platformClasses = platform
  show (platform.foldl ClassSpace.insertNew (classes.foldl ClassSpace.insert .empty)).lookup? name = _
  rw [ClassSpace.lookup?_foldl_insertNew, ClassSpace.lookup?_foldl_insert, ClassSpace.lookup?_empty,
    Option.or_none]

theorem eq_of_program {h k : Hierarchy} (hp : h.program = k.program) (hs : h.standIns = k.standIns) :
    h = k := by
  cases h
  cases k
  cases hp
  cases hs
  rfl

theorem ofClasses_congr {classes others : List Class}
    (h : ∀ name, last? classes name = last? others name) : ofClasses classes = ofClasses others := by
  refine eq_of_program (ClassSpace.eq_of_classes (OrderedMap.eq_of_get? fun name => ?_)) rfl
  show (ofClasses classes).program.lookup? name = (ofClasses others).program.lookup? name
  rw [lookup?_ofClasses, lookup?_ofClasses, h]

end Hierarchy

namespace Analysis

theorem run_of_ofClasses {classes others : List Class}
    (h : Hierarchy.ofClasses classes = Hierarchy.ofClasses others) : run classes = run others := by
  rw [run_eq, run_eq, h]

/-- **The order of the classes counts for nothing but the last class of each name.**  Lists in which
every name that occurs has the same last class have one analysis, and it is that of the last classes
in the order of their names. -/
theorem run_normal (classes others : List Class)
    (hlast : ∀ c ∈ classes ++ others, last? classes c.name = last? others c.name) :
    (∃ a, run classes = .ok a ∧ run others = .ok a ∧ run (normal classes) = .ok a) ∧
    (normal classes).Pairwise (fun a b => a.name < b.name) ∧
    ∀ c, c ∈ normal classes ↔ last? classes c.name = some c := by
  have hsame : ∀ name, last? classes name = last? others name := by
    intro name
    by_cases hoccurs : ∃ c ∈ classes ++ others, c.name = name
    · obtain ⟨c, hc, rfl⟩ := hoccurs
      exact hlast c hc
    · have hnone : ∀ c ∈ classes ++ others, c.name ≠ name := fun c hc hn => hoccurs ⟨c, hc, hn⟩
      rw [Program.last?_eq_none_iff.2 fun c hc => hnone c (List.mem_append_left _ hc),
        Program.last?_eq_none_iff.2 fun c hc => hnone c (List.mem_append_right _ hc)]
  obtain ⟨a, ha, _⟩ := run_aligned classes
  refine ⟨⟨a, ha, ?_, ?_⟩, Program.pairwise_normal classes, fun c => Program.mem_normal_iff⟩
  · rw [← run_of_ofClasses (Hierarchy.ofClasses_congr hsame), ha]
  · rw [run_of_ofClasses (Hierarchy.ofClasses_congr (Program.last?_normal classes)), ha]

def gate (labels : List AnnotationUse) : Class where
  name := "p/Gate"
  superName := none
  interfaces := []
  annotations := labels
  fields := []
  methods := [⟨"open", "()V", ⟨true, true, false⟩,
    [⟨classClass, Operation.methodName, Operation.descriptor, .virtual, 1,
      [.known (.classObject "p/Gate"), .known (.classObject "p/Label")]⟩]⟩]
  analyzed := true

def label : Class := ⟨"p/Label", none, [], [], [], [], false⟩

def shut : AnnotationUse := ⟨"p/Label", .ofList [("text", .constant (.string "shut"))]⟩

/-- The gate is given twice and counts with its label, wherever the class of labels is given. -/
theorem run_normal_gate :
    (∀ c ∈ [gate [], label, gate [shut]] ++ [gate [shut], label],
      last? [gate [], label, gate [shut]] c.name = last? [gate [shut], label] c.name) ∧
    (∃ a, run [gate [], label, gate [shut]] = .ok a ∧ run [gate [shut], label] = .ok a ∧
      run (normal [gate [], label, gate [shut]]) = .ok a) ∧
    (run [gate [shut], label]).toOption.map Analysis.standInCount = some 1 := by
  have hlast : ∀ c ∈ [gate [], label, gate [shut]] ++ [gate [shut], label],
      last? [gate [], label, gate [shut]] c.name = last? [gate [shut], label] c.name := by
    intro c hc
    have hname : c.name = "p/Gate" ∨ c.name = "p/Label" := by
      simp only [List.cons_append, List.nil_append, List.mem_cons, List.not_mem_nil, or_false] at hc
      rcases hc with rfl | rfl | rfl | rfl | rfl
      · exact .inl rfl
      · exact .inr rfl
      · exact .inl rfl
      · exact .inl rfl
      · exact .inr rfl
    rcases hname with hname | hname
    · rw [hname]
      rfl
    · rw [hname]
      rfl
  exact ⟨hlast, (run_normal _ _ hlast).1, by decide +kernel⟩

end Analysis

end AnnotationGraph
