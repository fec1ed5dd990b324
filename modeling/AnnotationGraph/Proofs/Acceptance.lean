import AnnotationGraph.Program.Manifest
import AnnotationGraph.Proofs.JsonText
import Mathlib.Data.List.Duplicate
import Mathlib.Data.List.Sort
import Mathlib.Data.String.Basic
import Mathlib.Order.Bounds.Basic

/-!
# Which manifests are accepted

A manifest is accepted if each of its classes has a name of its own, and then has its classes in the
order of their names.  Otherwise the complaint is about an empty name if there is one, and else about
the least name that occurs twice.  The complaint is found in one walk over the classes in order, but
what it says is told by the names alone, in whatever order they were given.

* `Manifest.sorted_perm`, `.pairwise_sorted`  the classes in the order of their names;
* `Manifest.Verdict`                          what is to be said of a list of names;
* `Verdict.unique`, `Verdict.perm`            it is one thing, and the order does not matter;
* `Manifest.verdict_complaint?`               it is what the walk says of classes in order;
* `Manifest.parse_accepts`                    what becomes of a text that spells a manifest.
-/

namespace AnnotationGraph

namespace Manifest

/-! ### Classes in the order of their names -/

theorem insertByName_eq (c : Class) (classes : List Class) :
    insertByName c classes = classes.orderedInsert (fun a b => a.name ≤ b.name) c := by
  induction classes with
  | nil => rfl
  | cons d rest ih =>
    rw [insertByName, List.orderedInsert_cons, ih]
    by_cases hle : c.name ≤ d.name
    · rw [if_pos hle, if_neg]
      exact fun hgt => absurd hle (not_le.2 (compare_gt_iff_gt.1 hgt))
    · rw [if_neg hle, if_pos (compare_gt_iff_gt.2 (not_le.1 hle))]

theorem sorted_eq (classes : List Class) :
    sorted classes = classes.insertionSort fun a b => a.name ≤ b.name := by
  induction classes with
  | nil => rfl
  | cons c rest ih =>
    rw [List.insertionSort_cons, ← ih, ← insertByName_eq]
    rfl

theorem sorted_perm (classes : List Class) : (sorted classes).Perm classes := by
  rw [sorted_eq]
  exact List.perm_insertionSort _ _

theorem pairwise_sorted (classes : List Class) :
    (sorted classes).Pairwise fun a b => a.name ≤ b.name := by
  have htotal : Std.Total fun a b : Class => a.name ≤ b.name := ⟨fun a b => le_total _ _⟩
  have htrans : IsTrans Class fun a b => a.name ≤ b.name := ⟨fun _ _ _ => le_trans⟩
  rw [sorted_eq]
  exact List.pairwise_insertionSort _ _

theorem ascending_sorted {classes : List Class} (h : (classes.map Class.name).Nodup) :
    (sorted classes).Pairwise fun a b => a.name < b.name := by
  have hapart : (sorted classes).Pairwise fun a b => a.name ≠ b.name := by
    rw [(sorted_perm classes).pairwise_iff fun hab => Ne.symm hab]
    exact List.pairwise_map.1 h
  exact (pairwise_sorted classes).imp₂ (fun _ _ => lt_of_le_of_ne) hapart

theorem sorted_congr {classes others : List Class} (h : classes.Perm others)
    (hapart : (classes.map Class.name).Nodup) : sorted classes = sorted others := by
  refine List.Perm.eq_of_pairwise (fun a b _ _ hab hba => absurd hab hba.asymm)
    (ascending_sorted hapart) (ascending_sorted ((h.map _).nodup_iff.1 hapart)) ?_
  exact (sorted_perm classes).trans (h.trans (sorted_perm others).symm)

/-! ### What is to be said of names -/

/-- What is to be said of the names of classes: nothing if all are different and none is empty, and
else that one is empty, or which is the least that occurs twice. -/
inductive Verdict (names : List ClassName) : Option Error → Prop
  | fine (named : "" ∉ names) (apart : names.Nodup) : Verdict names none
  | unnamed (unnamed : "" ∈ names) : Verdict names (some .emptyName)
  | repeated {name : ClassName} (named : "" ∉ names)
      (least : IsLeast {n | List.Duplicate n names} name) : Verdict names (some (.duplicate name))

namespace Verdict

variable {names others : List ClassName} {name : ClassName} {e f : Option Error}

theorem unique (he : Verdict names e) (hf : Verdict names f) : e = f := by
  cases he with
  | fine named apart =>
    cases hf with
    | fine => rfl
    | unnamed h => exact absurd h named
    | repeated _ least => exact absurd apart least.1.not_nodup
  | unnamed h =>
    cases hf with
    | fine named => exact absurd h named
    | unnamed => rfl
    | repeated named => exact absurd h named
  | repeated named least =>
    cases hf with
    | fine _ apart => exact absurd apart least.1.not_nodup
    | unnamed h => exact absurd h named
    | repeated _ least' => rw [least.unique least']

theorem perm (h : names.Perm others) (he : Verdict names e) : Verdict others e := by
  have hduplicate : ∀ n, List.Duplicate n names ↔ List.Duplicate n others := by
    intro n
    rw [List.duplicate_iff_two_le_count, List.duplicate_iff_two_le_count, h.count_eq]
  cases he with
  | fine named apart => exact .fine (h.mem_iff.not.1 named) (h.nodup_iff.1 apart)
  | unnamed hmem => exact .unnamed (h.mem_iff.1 hmem)
  | repeated named least =>
    simp only [hduplicate] at least
    exact .repeated (h.mem_iff.not.1 named) least

theorem cons (hname : name ≠ "") (hnew : name ∉ names) (he : Verdict names e) :
    Verdict (name :: names) e := by
  have hnamed : "" ∉ names → "" ∉ name :: names := fun h =>
    List.not_mem_cons_of_ne_of_not_mem hname.symm h
  have hduplicate : ∀ n, List.Duplicate n (name :: names) ↔ List.Duplicate n names := by
    intro n
    rw [List.duplicate_cons_iff, or_iff_right]
    rintro ⟨rfl, hmem⟩
    exact hnew hmem
  cases he with
  | fine named apart => exact .fine (hnamed named) (List.nodup_cons.2 ⟨hnew, apart⟩)
  | unnamed h => exact .unnamed (List.mem_cons_of_mem _ h)
  | repeated named least =>
    simp only [← hduplicate] at least
    exact .repeated (hnamed named) least

end Verdict

/-! ### The complaint -/

/-- Of classes in the order of their names the walk says what is to be said: a class has the name of
another one only if it has that of the next. -/
theorem verdict_complaint? {classes : List Class}
    (h : classes.Pairwise fun a b => a.name ≤ b.name) :
    Verdict (classes.map Class.name) (complaint? classes) := by
  induction classes with
  | nil => exact .fine List.not_mem_nil .nil
  | cons c rest ih =>
    obtain ⟨hle, hrest⟩ := List.pairwise_cons.1 h
    have hnames : ∀ n ∈ rest.map Class.name, c.name ≤ n := List.forall_mem_map.2 hle
    unfold complaint?
    split
    next hempty => exact .unnamed (List.mem_map.2 ⟨c, List.mem_cons_self, hempty⟩)
    next hname =>
      cases rest with
      | nil => exact (Verdict.fine List.not_mem_nil .nil).cons hname List.not_mem_nil
      | cons d others =>
        dsimp only
        split
        next heq =>
          have hfirst : ∀ n ∈ (c :: d :: others).map Class.name, c.name ≤ n :=
            List.forall_mem_cons.2 ⟨le_rfl, hnames⟩
          refine .repeated (fun hmem => hname ?_) ⟨?_, fun n hn => hfirst n hn.mem⟩
          · exact le_antisymm (hfirst "" hmem)
              (not_lt.1 fun hlt => List.not_lt_nil _ (String.lt_iff_toList_lt.1 hlt))
          · exact List.duplicate_cons_self_iff.2 (List.mem_map.2 ⟨d, List.mem_cons_self, heq.symm⟩)
        next hne =>
          have hlt : c.name < d.name := lt_of_le_of_ne (hle d List.mem_cons_self) hne
          refine (ih hrest).cons hname fun hmem => ?_
          obtain ⟨a, ha, heq⟩ := List.mem_map.1 hmem
          rcases List.mem_cons.1 ha with rfl | ha
          · exact hne heq.symm
          · exact absurd ((List.pairwise_cons.1 hrest).1 a ha) (not_le.2 (heq ▸ hlt))

theorem verdict_sorted (classes : List Class) :
    Verdict (classes.map Class.name) (complaint? (sorted classes)) :=
  (verdict_complaint? (pairwise_sorted classes)).perm ((sorted_perm classes).map _)

variable {m k : Manifest}

theorem accept_eq_ok_iff : m.accept = .ok k ↔
    Verdict (m.classes.map Class.name) none ∧ ⟨sorted m.classes⟩ = k := by
  have hverdict := verdict_sorted m.classes
  unfold accept
  cases hc : complaint? (sorted m.classes) with
  | none =>
    rw [hc] at hverdict
    simp [hc, hverdict]
  | some e =>
    rw [hc] at hverdict
    have hnot : ¬ Verdict (m.classes.map Class.name) none := fun hnone => nomatch hnone.unique hverdict
    simp [hc, hnot]

theorem accept_eq_error_iff {e : Error} :
    m.accept = .error e ↔ Verdict (m.classes.map Class.name) (some e) := by
  have hverdict := verdict_sorted m.classes
  unfold accept
  cases hc : complaint? (sorted m.classes) with
  | none =>
    rw [hc] at hverdict
    have hnot : ¬ Verdict (m.classes.map Class.name) (some e) := fun hsome =>
      nomatch hsome.unique hverdict
    simp [hc, hnot]
  | some f =>
    rw [hc] at hverdict
    simp only [hc, Except.error.injEq]
    exact ⟨fun heq => heq ▸ hverdict, fun hsome => Option.some.inj (hverdict.unique hsome)⟩

theorem accept_congr (h : m.classes.Perm k.classes) : m.accept = k.accept := by
  cases hm : m.accept with
  | ok r =>
    obtain ⟨hfine, rfl⟩ := accept_eq_ok_iff.1 hm
    have hapart : (m.classes.map Class.name).Nodup := by
      cases hfine
      assumption
    exact (accept_eq_ok_iff.2 ⟨hfine.perm (h.map _), by rw [sorted_congr h hapart]⟩).symm
  | error e => exact (accept_eq_error_iff.2 ((accept_eq_error_iff.1 hm).perm (h.map _))).symm

/-! ### Texts -/

theorem parse_of_read? {input : Input} (h : read? input = some m) : parse input = m.accept := by
  rw [parse, h]

/-- **A text that spells a manifest is accepted exactly if each class has a name of its own.**  It then
gives the same classes in strictly ascending order of their names, by code points.  Otherwise it is
refused for an empty name if there is one, and else for the least name that occurs twice.  Texts with
the same classes in different orders are not told apart. -/
theorem parse_accepts {input : Input} {m : Manifest} (h : read? input = some m) :
    ((∃ r, parse input = .ok r) ↔
      (∀ c ∈ m.classes, c.name ≠ "") ∧ (m.classes.map Class.name).Nodup) ∧
    (∀ r, parse input = .ok r →
      r.classes.Perm m.classes ∧ r.classes.Pairwise fun a b => a.name < b.name) ∧
    (parse input = .error .emptyName ↔ ∃ c ∈ m.classes, c.name = "") ∧
    (∀ name, parse input = .error (.duplicate name) ↔ (∀ c ∈ m.classes, c.name ≠ "") ∧
      IsLeast {n | List.Duplicate n (m.classes.map Class.name)} name) ∧
    (Error.message .emptyName = "class with empty name" ∧
      ∀ name, Error.message (.duplicate name) = "duplicate class " ++ name) ∧
    ∀ other k, read? other = some k → k.classes.Perm m.classes → parse other = parse input := by
  have hempty : "" ∈ m.classes.map Class.name ↔ ∃ c ∈ m.classes, c.name = "" := List.mem_map
  have hnamed : "" ∉ m.classes.map Class.name ↔ ∀ c ∈ m.classes, c.name ≠ "" := by
    rw [hempty]
    push Not
    rfl
  rw [parse_of_read? h]
  refine ⟨⟨?_, ?_⟩, ?_, ⟨?_, ?_⟩, fun name => ⟨?_, ?_⟩, ⟨rfl, fun _ => rfl⟩, ?_⟩
  · rintro ⟨r, hr⟩
    cases (accept_eq_ok_iff.1 hr).1 with
    | fine named apart => exact ⟨hnamed.1 named, apart⟩
  · rintro ⟨named, apart⟩
    exact ⟨_, accept_eq_ok_iff.2 ⟨.fine (hnamed.2 named) apart, rfl⟩⟩
  · intro r hr
    obtain ⟨hfine, rfl⟩ := accept_eq_ok_iff.1 hr
    cases hfine with
    | fine _ apart => exact ⟨sorted_perm _, ascending_sorted apart⟩
  · intro he
    cases accept_eq_error_iff.1 he with
    | unnamed hmem => exact hempty.1 hmem
  · exact fun hsome => accept_eq_error_iff.2 (.unnamed (hempty.2 hsome))
  · intro he
    cases accept_eq_error_iff.1 he with
    | repeated named least => exact ⟨hnamed.1 named, least⟩
  · exact fun ⟨named, least⟩ => accept_eq_error_iff.2 (.repeated (hnamed.2 named) least)
  · intro other k hk hperm
    rw [parse_of_read? hk, accept_congr hperm]

def bare (name : ClassName) : Class := ⟨name, none, [], [], [], [], true⟩

def listed (names : List ClassName) : Json :=
  .record [("classes", .array (names.map fun name => .record [("name", .text name)]))]

theorem parse_accepts_listed :
    read? (.ofText (listed ["p/C", "p/B", "p/A", "p/C", "p/B"]).compact)
      = some ⟨["p/C", "p/B", "p/A", "p/C", "p/B"].map bare⟩ ∧
    parse (.ofText (listed ["p/C", "p/B", "p/A", "p/C", "p/B"]).compact)
      = .error (.duplicate "p/B") ∧
    parse (.ofText (listed ["p/B", "p/B", "p/C", "p/C", "p/A"]).compact)
      = .error (.duplicate "p/B") := by
  have hread : read? (.ofText (listed ["p/C", "p/B", "p/A", "p/C", "p/B"]).compact)
      = some ⟨["p/C", "p/B", "p/A", "p/C", "p/B"].map bare⟩ := by
    rw [read?, Json.read?_compact]
    rfl
  have hother : read? (.ofText (listed ["p/B", "p/B", "p/C", "p/C", "p/A"]).compact)
      = some ⟨["p/B", "p/B", "p/C", "p/C", "p/A"].map bare⟩ := by
    rw [read?, Json.read?_compact]
    rfl
  have hleast : IsLeast {n | List.Duplicate n ["p/C", "p/B", "p/A", "p/C", "p/B"]} "p/B" := by
    have hle : ∀ n ∈ ["p/C", "p/B", "p/A", "p/C", "p/B"],
        List.Duplicate n ["p/C", "p/B", "p/A", "p/C", "p/B"] → "p/B" ≤ n := by decide +kernel
    exact ⟨by decide +kernel, fun n hn => hle n hn.mem hn⟩
  have hperm : (["p/B", "p/B", "p/C", "p/C", "p/A"].map bare).Perm
      (["p/C", "p/B", "p/A", "p/C", "p/B"].map bare) := List.Perm.map bare (by decide)
  obtain ⟨-, -, -, hduplicate, -, hcongr⟩ := parse_accepts hread
  have herror := (hduplicate "p/B").2 ⟨by simp [bare], hleast⟩
  exact ⟨hread, herror, (hcongr _ _ hother hperm).trans herror⟩

end Manifest

end AnnotationGraph
