import AnnotationGraph.Proofs.Lockstep
import AnnotationGraph.Proofs.Programs
import AnnotationGraph.Proofs.Reports
import AnnotationGraph.Proofs.Resolution

/-!
# A class that nothing mentions

An analysis looks up the classes that the program mentions, the super classes of these, and the class
of class objects.  Programs that have the same under all these names, and the same analyzed classes,
have one analysis.  So a class of a library may be added or left out as long as no other class mentions
it, and also if super classes lead in a circle.

* `Class.Mentions`        a class names another as its super class or in a call;
* `Hierarchy.Agree`       hierarchies that have the same under some names;
* `Hierarchy.Closed`      these names have their super classes among them;
* `Agree.resolve?`        methods are resolved alike;
* `Analysis.run_of_agree` the analyses of programs that agree;
* `Analysis.run_insert`   an unmentioned class changes nothing.
-/

namespace AnnotationGraph

/-- A class names another, as its super class, as the owner of a method that it calls, or by a class
object that flows into a call. -/
def Class.Mentions (c : Class) (name : ClassName) : Prop :=
  c.superName = some name ∨
  ∃ m ∈ c.methods, ∃ call ∈ m.calls,
    call.owner = name ∨ .known (.classObject name) ∈ call.arguments

instance (c : Class) (name : ClassName) : Decidable (c.Mentions name) :=
  inferInstanceAs (Decidable (_ ∨ _))

variable {seen : ClassName → Prop}

namespace Hierarchy

variable {h k : Hierarchy} {name : ClassName} {m : MethodRef} {call : Call}

/-! ### Agreement on some names -/

/-- Hierarchies that have the same classes under the names that are seen, and the same made-up
classes. -/
structure Agree (seen : ClassName → Prop) (h k : Hierarchy) : Prop where
  program : ∀ name, seen name → h.program.lookup? name = k.program.lookup? name
  standIns : h.standIns = k.standIns

def Closed (seen : ClassName → Prop) (h : Hierarchy) : Prop :=
  ∀ name c, seen name → h.lookup? name = some c → ∀ parent, c.superName = some parent → seen parent

theorem Agree.lookup? (hhk : Agree seen h k) (hn : seen name) : h.lookup? name = k.lookup? name := by
  unfold Hierarchy.lookup?
  rw [hhk.program name hn, hhk.standIns]

theorem Agree.method? (hhk : Agree seen h k) (hm : seen m.owner) : h.method? m = k.method? m := by
  unfold Hierarchy.method?
  rw [hhk.lookup? hm]

theorem Agree.register (hhk : Agree seen h k) (c : Class) :
    (h.register c).1 = (k.register c).1 ∧ Agree seen (h.register c).2 (k.register c).2 := by
  rw [register_eq, register_eq, hhk.standIns]
  exact ⟨rfl, hhk.program, rfl⟩

theorem Closed.ancestor? (hh : Closed seen h) (hn : seen name) :
    ∀ i c, h.ancestor? name i = some c → seen c.name := by
  intro i
  induction i with
  | zero =>
    intro c hc
    rw [name_of_lookup? hc]
    exact hn
  | succ i ih =>
    intro c hc
    obtain ⟨d, hd, hsuper⟩ := Option.bind_eq_some_iff.1 hc
    obtain ⟨parent, hparent, hlookup⟩ := Option.bind_eq_some_iff.1 hsuper
    rw [name_of_lookup? hlookup]
    exact hh d.name d (ih d hd) (lookup?_of_ancestor? hd) parent hparent

theorem Closed.leadsTo (hh : Closed seen h) {start : ClassName} (hstart : seen start)
    (hled : h.LeadsTo start name) : seen name := by
  rcases hled with rfl | ⟨i, c, hc, hparent⟩
  · exact hstart
  · exact hh c.name c (hh.ancestor? hstart i c hc) (lookup?_of_ancestor? hc) name hparent

/-! ### Where calls lead -/

theorem Agree.resolve? (hhk : Agree seen h k) (hh : Closed seen h) (hm : seen m.owner) :
    h.resolve? m = k.resolve? m :=
  resolve?_congr fun _ hled => hhk.lookup? (hh.leadsTo hm hled)

theorem Agree.target? (hhk : Agree seen h k) (hh : Closed seen h) (hcall : seen call.owner) :
    h.target? call = k.target? call := by
  have hr : h.resolve? call.target = k.resolve? call.target := hhk.resolve? hh hcall
  unfold Hierarchy.target? asked? operation?
  rw [hr]

theorem Agree.addedBy (hhk : Agree seen h k) (hh : Closed seen h) (c : Class) {m : Method}
    (hm : ∀ call ∈ m.calls, seen call.owner) : h.addedBy c m = k.addedBy c m := by
  unfold Hierarchy.addedBy
  congr 1
  apply List.flatMap_congr
  intro call hcall
  rw [hhk.target? hh (hm call hcall)]

theorem Agree.linksBy (hhk : Agree seen h k) (hh : Closed seen h) (c : Class) {m : Method}
    (hm : ∀ call ∈ m.calls, seen call.owner) : h.linksBy c m = k.linksBy c m := by
  apply List.flatMap_congr
  intro call hcall
  rw [link?, link?, hhk.target? hh (hm call hcall)]

theorem Agree.answering (hclass : seen classClass) : Answering (Agree seen)
    fun l => ∀ subject sought, l = .exact subject sought → seen subject ∧ seen sought where
  finding := by
    intro h k hhk subject sought hasked
    obtain ⟨hsubject, hsought⟩ := hasked subject sought rfl
    unfold finding
    rw [hhk.lookup? hsubject, hhk.lookup? hsought]
  firstFree := by
    intro h k hhk
    unfold firstFree
    rw [hhk.method? hclass]
  register := Agree.register

end Hierarchy

namespace Analysis

open Hierarchy (Agree Closed)

variable {h k : Hierarchy}

theorem targets_congr (hsame : ∀ name c, c.analyzed = true →
      (h.program.lookup? name = some c ↔ k.program.lookup? name = some c)) :
    targets h = targets k := by
  have hentries : h.program.classes.entries.filter (fun e => e.2.analyzed)
      = k.program.classes.entries.filter fun e => e.2.analyzed := by
    apply OrderedMap.eq_of_mem_iff (h.program.classes.ascending.filter _)
      (k.program.classes.ascending.filter _)
    rintro ⟨name, c⟩
    rw [List.mem_filter, List.mem_filter, ← OrderedMap.get?_eq_some_iff,
      ← OrderedMap.get?_eq_some_iff]
    exact and_congr_left (hsame name c)
  show (h.program.classes.entries.map Prod.snd).filter Class.analyzed
    = (k.program.classes.entries.map Prod.snd).filter Class.analyzed
  rw [List.filter_map, List.filter_map]
  exact congrArg (List.map Prod.snd) hentries

/-- Programs with the same analyzed classes have one analysis if they have the same under all names
that these mention. -/
theorem run_of_agree {classes others : List Class}
    (hagree : Agree seen (.ofClasses classes) (.ofClasses others))
    (hclosed : Closed seen (.ofClasses classes)) (hclass : seen classClass)
    (htargets : targets (.ofClasses classes) = targets (.ofClasses others))
    (hcalls : ∀ c ∈ targets (.ofClasses classes), ∀ m ∈ c.methods, ∀ call ∈ m.calls,
      seen call.owner ∧ ∀ name, .known (.classObject name) ∈ call.arguments → seen name) :
    run classes = run others := by
  apply run_of_lockstep (Agree.answering hclass) hagree (congrArg List.length htargets)
  · unfold Hierarchy.added
    rw [← htargets]
    apply List.flatMap_congr
    intro c hc
    apply List.flatMap_congr
    intro m hm
    exact hagree.addedBy hclosed c fun call hcall => (hcalls c hc m hm call hcall).1
  · unfold Hierarchy.links
    rw [← htargets]
    apply List.flatMap_congr
    intro c hc
    apply List.flatMap_congr
    intro m hm
    exact hagree.linksBy hclosed c fun call hcall => (hcalls c hc m hm call hcall).1
  · -- a lookup among the nodes stems from a call with both class objects as arguments
    rintro l hl subject sought rfl
    have hmem := List.mem_filterMap.2 ⟨_, hl, Node.modeled?_node _⟩
    rw [Hierarchy.filterMap_added] at hmem
    obtain ⟨q, hq, hlookup⟩ := List.mem_map.1 hmem
    obtain ⟨c, hc, hanalyzed, m, hm, call, hcall, _, _, _, h0, h1⟩ :=
      Hierarchy.mem_inquiries_iff.1 hq
    obtain ⟨hsubject, hsought⟩ : q.subject = subject ∧ q.sought = sought := by
      have hparts := Lookup.mk.inj hlookup
      exact ⟨Abstraction.point.inj hparts.1, Abstraction.point.inj hparts.2⟩
    rw [hsubject] at h0
    rw [hsought] at h1
    obtain ⟨_, hseen⟩ := hcalls c (List.mem_filter.2 ⟨hc, hanalyzed⟩) m hm call hcall
    exact ⟨hseen subject (List.mem_of_getElem? h0), hseen sought (List.mem_of_getElem? h1)⟩

end Analysis

/-! ### Classes that are not mentioned -/

theorem superName_of_mem_platformClasses : ∀ c ∈ platformClasses, ∀ parent,
    c.superName = some parent → ∃ d ∈ platformClasses, d.name = parent := by
  decide +kernel

theorem analyzed_of_mem_platformClasses : ∀ c ∈ platformClasses, c.analyzed = false := by
  decide +kernel

theorem Hierarchy.mem_of_lookup?_ofClasses {classes : List Class} {name : ClassName} {c : Class}
    (hc : (Hierarchy.ofClasses classes).program.lookup? name = some c) :
    c ∈ classes ∨ c ∈ platformClasses := by
  rw [lookup?_ofClasses, Option.or_eq_some_iff] at hc
  rcases hc with hc | ⟨_, hc⟩
  · exact .inl (Program.mem_of_last? hc).1
  · exact .inr (List.mem_of_find?_eq_some hc)

/-- A class that is not analyzed, has a name of its own and is mentioned by none of the others. -/
structure Program.Idle (others : List Class) (c : Class) : Prop where
  library : c.analyzed = false
  name : ∀ d ∈ others ++ platformClasses, d.name ≠ c.name
  free : ∀ d ∈ others, ¬ d.Mentions c.name

namespace Program.Idle

open Hierarchy (Agree Closed)

variable {before after others : List Class} {c : Class}

theorem agree (before after : List Class) (c : Class) :
    Agree (· ≠ c.name) (.ofClasses (before ++ after)) (.ofClasses (before ++ c :: after)) := by
  refine ⟨fun name hn => ?_, rfl⟩
  rw [Hierarchy.lookup?_ofClasses, Hierarchy.lookup?_ofClasses, last?_insert hn.symm]

theorem closed (hc : Idle others c) : Closed (· ≠ c.name) (.ofClasses others) := by
  intro name d _ hd parent hparent
  rw [Hierarchy.lookup?_of_fresh rfl] at hd
  rcases Hierarchy.mem_of_lookup?_ofClasses hd with hd | hd
  · rintro rfl
    exact hc.free d hd (.inl hparent)
  · obtain ⟨e, he, rfl⟩ := superName_of_mem_platformClasses d hd parent hparent
    exact hc.name e (List.mem_append_right _ he)

theorem classClass_ne (hc : Idle others c) : classClass ≠ c.name := by
  obtain ⟨d, hd, hname⟩ : ∃ d ∈ platformClasses, d.name = classClass := by decide +kernel
  exact hname ▸ hc.name d (List.mem_append_right _ hd)

theorem eq_of_mem (hc : Idle (before ++ after) c) {d : Class}
    (hd : d ∈ before ++ c :: after ∨ d ∈ platformClasses) (hname : d.name = c.name) : d = c := by
  by_contra hne
  refine hc.name d ?_ hname
  rcases hd with hd | hd
  · rcases List.mem_append.1 hd with hd | hd
    · exact List.mem_append_left _ (List.mem_append_left _ hd)
    · have hd := (List.mem_cons.1 hd).resolve_left hne
      exact List.mem_append_left _ (List.mem_append_right _ hd)
  · exact List.mem_append_right _ hd

theorem targets_eq (hc : Idle (before ++ after) c) :
    Analysis.targets (.ofClasses (before ++ after))
      = Analysis.targets (.ofClasses (before ++ c :: after)) := by
  apply Analysis.targets_congr
  intro name d hanalyzed
  by_cases hname : name = c.name
  · -- nothing that is analyzed has the name in either program
    constructor
    · intro hd
      have hmem := List.mem_append.2 (Hierarchy.mem_of_lookup?_ofClasses hd)
      exact absurd ((ClassSpace.name_of_lookup? hd).trans hname) (hc.name d hmem)
    · intro hd
      have hdc := hc.eq_of_mem (Hierarchy.mem_of_lookup?_ofClasses hd)
        ((ClassSpace.name_of_lookup? hd).trans hname)
      rw [hdc, hc.library] at hanalyzed
      exact nomatch hanalyzed
  · rw [(agree before after c).program name hname]

theorem calls (hc : Idle others c) : ∀ d ∈ Analysis.targets (.ofClasses others), ∀ m ∈ d.methods,
    ∀ call ∈ m.calls, call.owner ≠ c.name ∧
      ∀ name, .known (.classObject name) ∈ call.arguments → name ≠ c.name := by
  intro d hd m hm call hcall
  obtain ⟨hd, hanalyzed⟩ := List.mem_filter.1 hd
  rcases Hierarchy.mem_of_lookup?_ofClasses (ClassSpace.mem_toList_iff.1 hd) with hd | hd
  · refine ⟨fun howner => hc.free d hd (.inr ⟨m, hm, call, hcall, .inl howner⟩), ?_⟩
    rintro name hargument rfl
    exact hc.free d hd (.inr ⟨m, hm, call, hcall, .inr hargument⟩)
  · rw [analyzed_of_mem_platformClasses d hd] at hanalyzed
    exact nomatch hanalyzed

end Program.Idle

namespace Analysis

open Program (Idle)

/-- **A library class that nothing mentions changes no analysis.**  A class that is not analyzed may
stand anywhere among others with other names, if none of them names it. -/
theorem run_insert (before after : List Class) (c : Class) (hlibrary : c.analyzed = false)
    (hname : ∀ d ∈ before ++ after ++ platformClasses, d.name ≠ c.name)
    (hfree : ∀ d ∈ before ++ after, ¬ d.Mentions c.name) :
    ∃ a, run (before ++ c :: after) = .ok a ∧ run (before ++ after) = .ok a := by
  have hidle : Idle (before ++ after) c := ⟨hlibrary, hname, hfree⟩
  have hsame := run_of_agree (Idle.agree before after c) hidle.closed hidle.classClass_ne
    hidle.targets_eq hidle.calls
  obtain ⟨a, ha, _⟩ := run_aligned (before ++ after)
  exact ⟨a, hsame ▸ ha, ha⟩

/-- A class of a library that is its own super class, with the name of the class that stands in for
the label of the gate. -/
def shadow : Class :=
  ⟨StandIn.name "p/Gate" "p/Label", some (StandIn.name "p/Gate" "p/Label"), [], [], [], [], false⟩

theorem run_insert_shadow :
    shadow.analyzed = false ∧
    (∀ d ∈ [gate [shut]] ++ [label] ++ platformClasses, d.name ≠ shadow.name) ∧
    (∀ d ∈ [gate [shut]] ++ [label], ¬ d.Mentions shadow.name) ∧
    (∃ a, run ([gate [shut]] ++ shadow :: [label]) = .ok a ∧ run ([gate [shut]] ++ [label]) = .ok a) ∧
    (run ([gate [shut]] ++ [label])).toOption.map Analysis.standInCount = some 1 := by
  have hname : ∀ d ∈ [gate [shut]] ++ [label] ++ platformClasses, d.name ≠ shadow.name := by
    decide +kernel
  have hfree : ∀ d ∈ [gate [shut]] ++ [label], ¬ d.Mentions shadow.name := by decide +kernel
  exact ⟨rfl, hname, hfree, run_insert _ _ shadow rfl hname hfree, by decide +kernel⟩

end Analysis

end AnnotationGraph
