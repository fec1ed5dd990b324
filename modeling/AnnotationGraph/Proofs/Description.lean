import AnnotationGraph.Proofs.BodyContent
import AnnotationGraph.Proofs.Counts
import AnnotationGraph.Proofs.Records
import AnnotationGraph.Report
import Mathlib.Data.List.TakeWhile

/-!
# What the results of a report say

The message of a reported call is read off the instructions of its body and the texts of their
constants.  All the same it says what stands in the program: the annotation that the lookup finds,
with its arguments, or that there is none.

* `Report.read?`                          what a result says, and of which function;
* `Report.results?_log`                   what the results of a report say;
* `account`                               the message for a lookup and what it finds;
* `Hierarchy.foundAfter?`                 what is found after some calls were reported;
* `ReportedCall.description_of_fills`    the message for a body that fills a stand-in;
* `Synthesizer.Tells.isSome_lookup?_iff`  which classes are there after some calls were reported;
* `Analysis.run_describes`                every result of an analysis says what was found.
-/

namespace AnnotationGraph

/-! ### Reading a report -/

def Json.at? (json : Json) : List String → Option Json
  | [] => some json
  | name :: rest => do ((← (← json.members?).lookup name)).at? rest

namespace Report

/-- The function of which a result speaks and its message. -/
def read? (result : Json) : Option (String × String) := do
  let [location] ← (← result.at? ["locations"]).items? | none
  let [function] ← (← location.at? ["logicalLocations"]).items? | none
  return (← (← function.at? ["name"]).text?, ← (← result.at? ["message", "text"]).text?)

def results? (report : Json) : Option (List (String × String)) := do
  let [run] ← (← report.at? ["runs"]).items? | none
  (← (← run.at? ["results"]).items?).mapM read?

theorem read?_result (c : ReportedCall) :
    read? (result c) = some (c.caller.text, c.description) :=
  rfl

theorem results?_log (arguments : List String) (calls : List ReportedCall) :
    results? (log arguments calls) = some (calls.map fun c => (c.caller.text, c.description)) := by
  show (calls.map result).mapM read? = _
  rw [List.mapM_map]
  exact List.mapM_pure

end Report

/-! ### What there is to say -/

/-- What is said of a lookup of one class on another at an offset, if it finds an annotation and if
it finds none.  The arguments come in ascending order of their names. -/
def account (offset : UInt32) (subject sought : ClassName) (found : Option AnnotationUse) : String :=
  let heading := "getAnnotation at offset " ++ toString offset.toNat
    ++ " on " ++ ("point<" ++ subject ++ ">") ++ " for " ++ ("point<" ++ sought ++ ">")
  match found.map fun use => use.arguments.entries with
  | none => heading ++ ": no matching annotation, modeled as an empty body"
  | some [] => heading ++ ": modeled as new " ++ StandIn.name subject sought
  | some arguments =>
    let texts := arguments.map fun a => a.1 ++ "=\"" ++ a.2.text ++ "\""
    heading ++ ": modeled as new " ++ StandIn.name subject sought ++ " with "
      ++ ", ".intercalate texts

def Instruction.allocates? (i : Instruction) : Option ClassName :=
  match i.action with
  | .new _ site => some site.type
  | .put .. | .leave _ => none

def Body.Allocates (b : Body) (name : ClassName) : Prop :=
  ∃ i ∈ b.instructions, i.allocates? = some name

instance (b : Body) (name : ClassName) : Decidable (b.Allocates name) :=
  inferInstanceAs (Decidable (∃ i ∈ b.instructions, i.allocates? = some name))

/-- The annotation that a lookup finds on a class of the program after calls were reported: the first
of the type, if the type is a class of the program or of the platform, or one that the body of such a
call allocates. -/
def Hierarchy.foundAfter? (h : Hierarchy) (reported : List ReportedCall)
    (subject sought : ClassName) : Option AnnotationUse :=
  if (h.lookup? sought).isSome ∨ ∃ r ∈ reported, r.body.Allocates sought then
    (h.program.lookup? subject).bind fun c => c.annotations.find? (·.type = sought)
  else none

theorem exists_first {α : Type} {p : α → Bool} {l : List α} {a : α} (ha : a ∈ l) (hp : ¬ p a) :
    ∃ first later, l = l.takeWhile p ++ first :: later ∧ ¬ p first := by
  cases hrest : l.dropWhile p with
  | nil => exact absurd (List.dropWhile_eq_nil_iff.1 hrest a ha) hp
  | cons first later =>
    refine ⟨first, later, by rw [← hrest, List.takeWhile_append_dropWhile], ?_⟩
    have hnot := List.head?_dropWhile_not p l
    rw [hrest] at hnot
    simpa using hnot

theorem Context.eq_lookup_of_lookup? {c : Context} {l : Lookup} (hl : c.lookup? = some l) :
    c = .lookup l := by
  cases c with
  | everywhere => exact nomatch hl
  | lookup k => rw [Option.some.inj hl]

/-! ### What is read off a body -/

def Body.write? (b : Body) (i : Instruction) : Option (String × String) :=
  match i.action with
  | .put _ value field => some (field.name, (b.constant? value).getD "")
  | .new .. | .leave _ => none

theorem Body.allocated?_eq (b : Body) :
    b.allocated? = (b.instructions.filterMap Instruction.allocates?).getLast? := rfl

theorem Body.written_eq (b : Body) : b.written = b.instructions.filterMap b.write? := rfl

theorem Body.Idle.allocated? {b : Body} (hb : b.Idle) : b.allocated? = none := by
  rw [Body.allocated?_eq, hb.instructions]
  rfl

namespace Body.Fills

variable {b : Body} {standIn : ClassName} {object : Nat} {arguments : List (String × Element)}

theorem allocated? (hb : b.Fills standIn object arguments) : b.allocated? = some standIn := by
  have hputs : (arguments.mapIdx fun i a => (⟨i + 1, .put object (object + (i + 1))
      ⟨standIn, a.1, StandIn.fieldType a.2.tree⟩⟩ : Instruction)).filterMap
        Instruction.allocates? = [] := by
    rw [List.filterMap_eq_nil_iff]
    intro i hi
    obtain ⟨j, hj, rfl⟩ := List.mem_mapIdx.1 hi
    rfl
  rw [Body.allocated?_eq, hb.instructions, List.filterMap_append, List.filterMap_cons, hputs]
  rfl

theorem allocates_iff (hb : b.Fills standIn object arguments) {name : ClassName} :
    b.Allocates name ↔ standIn = name := by
  constructor
  · rintro ⟨i, hi, halloc⟩
    unfold Instruction.allocates? at halloc
    rcases hb.instruction_cases hi with hnew | ⟨a, _, value, hput⟩ | hleave
    · rw [hnew] at halloc
      exact Option.some.inj halloc
    · rw [hput] at halloc
      exact nomatch halloc
    · rw [hleave] at halloc
      exact nomatch halloc
  · rintro rfl
    refine ⟨⟨0, .new object ⟨0, standIn⟩⟩, ?_, rfl⟩
    rw [hb.instructions]
    exact List.mem_append_left _ List.mem_cons_self

theorem filterMap_write? (b : Body) (arguments : List (String × Element)) :
    ∀ k, (∀ i a, arguments[i]? = some a → b.constant? (object + (i + k)) = some a.2.text) →
      (arguments.mapIdx fun i a => (⟨i + k, .put object (object + (i + k))
        ⟨standIn, a.1, StandIn.fieldType a.2.tree⟩⟩ : Instruction)).filterMap b.write?
      = arguments.map fun a => (a.1, a.2.text) := by
  induction arguments with
  | nil => exact fun _ _ => rfl
  | cons a rest ih =>
    intro k hk
    have hrest := ih (k + 1) fun i c hc => by
      rw [← Nat.add_assoc i k 1, Nat.add_right_comm]
      exact hk (i + 1) c hc
    have hfirst : b.write? ⟨0 + k, .put object (object + (0 + k))
        ⟨standIn, a.1, StandIn.fieldType a.2.tree⟩⟩ = some (a.1, a.2.text) := by
      show some (a.1, (b.constant? (object + (0 + k))).getD "") = _
      rw [hk 0 a rfl]
      rfl
    rw [List.mapIdx_cons, List.filterMap_cons_some hfirst, List.map_cons, ← hrest]
    congr 3
    funext i c
    rw [Nat.add_right_comm i 1 k]
    rfl

theorem written (hb : b.Fills standIn object arguments) :
    b.written = arguments.map fun a => (a.1, a.2.text) := by
  rw [Body.written_eq, hb.instructions, List.cons_append, List.filterMap_cons_none rfl,
    List.filterMap_append, filterMap_write? b arguments 1 hb.operands, List.filterMap_cons_none rfl,
    List.filterMap_nil, List.append_nil]

theorem isSome_constant? (hb : b.Fills standIn object arguments) {i : Instruction}
    (hi : i ∈ b.instructions) {o value : Nat} {field : FieldRef} (hput : i.action = .put o value field) :
    (b.constant? value).isSome := by
  rw [hb.instructions, List.mem_append, List.mem_cons, List.mem_mapIdx, List.mem_singleton] at hi
  rcases hi with (rfl | ⟨j, hj, rfl⟩) | rfl
  · exact nomatch hput
  · obtain ⟨_, rfl, _⟩ := Action.put.inj hput
    rw [hb.operands j _ (List.getElem?_eq_getElem hj)]
    rfl
  · exact nomatch hput

end Body.Fills

namespace ReportedCall

variable {r : ReportedCall} {subject sought : ClassName}

theorem description_of_idle (hsubject : r.subject = .point subject) (hsought : r.sought = .point sought)
    (hb : r.body.Idle) : r.description = account r.offset subject sought none := by
  unfold description
  rw [hb.allocated?, hsubject, hsought]
  rfl

theorem description_of_fills {use : AnnotationUse} {object : Nat} (hsubject : r.subject = .point subject)
    (hsought : r.sought = .point sought)
    (hb : r.body.Fills (StandIn.name subject sought) object use.arguments.entries) :
    r.description = account r.offset subject sought (some use) := by
  unfold description account
  rw [hb.allocated?, hb.written, hsubject, hsought]
  cases he : use.arguments.entries with
  | nil => simp [he, Abstraction.text]
  | cons a rest => simp [he, Abstraction.text, Function.comp_def]

end ReportedCall

/-! ### What is there after some reports -/

namespace Synthesizer

variable {h : Hierarchy} {s t : Synthesizer} {node : Node} {r : Except Fault (Nat × Body)}

def Filled (s : Synthesizer) : Prop :=
  ∀ e ∈ s.standIns, ∃ p ∈ s.bodies, ∃ object arguments,
    p.2.Fills (StandIn.name e.1.1 e.1.2) object arguments

theorem mem_standIns_standIn {subject : ClassName} {use : AnnotationUse}
    {e : (ClassName × ClassName) × Class} (he : e ∈ (s.standIn subject use).2.standIns) :
    e ∈ s.standIns ∨ e.1 = (subject, use.type) := by
  unfold standIn at he
  cases hnoted : s.standIns.lookup (subject, use.type) with
  | some c =>
    rw [hnoted] at he
    exact .inl he
  | none =>
    rw [hnoted] at he
    rcases List.mem_append.1 he with he | he
    · exact .inl he
    · rw [List.mem_singleton.1 he]
      exact .inr rfl

theorem Filled.of_prefix (hf : Filled s) (hstandIns : t.standIns = s.standIns)
    (hbodies : s.bodies <+: t.bodies) : Filled t := by
  intro e he
  obtain ⟨p, hp, hfills⟩ := hf e (hstandIns ▸ he)
  exact ⟨p, hbodies.subset hp, hfills⟩

theorem Filled.answer (hf : Filled s) (hs : Consistent h s) (ha : Answer s node r t) : Filled t := by
  cases ha with
  | foreign hn => exact hf
  | kept hn hk => exact hf
  | unpinned hn hk hl => exact hf
  | idle hn hk hfind => exact hf.of_prefix rfl (List.prefix_append _ _)
  | failed hn hk hfind hb =>
    exact absurd hb (hs.bodyOf_ne_error (hs.declares_of_found hfind).1 (Node.method_of_modeled? hn))
  | @filled subject sought use body hn hk hfind hb =>
    obtain ⟨hd, rfl⟩ := hs.declares_of_found hfind
    obtain ⟨object, _, _, _, hfills⟩ := hs.fills_of_bodyOf hd hb
    intro e he
    rcases mem_standIns_standIn he with hold | hnew
    · obtain ⟨p, hp, hpfills⟩ := hf e hold
      exact ⟨p, List.mem_append_left _ hp, hpfills⟩
    · rw [hnew]
      exact ⟨_, List.mem_append_right _ (List.mem_singleton_self _), object, _, hfills⟩

theorem Filled.run (hf : Filled s) (hs : Consistent h s) (requests : List Node) :
    Filled (s.run requests) := by
  induction requests generalizing s with
  | nil => exact hf
  | cons n rest ih =>
    have ha := body_answer s n
    exact ih (hf.answer hs ha) (hs.answer ha)

theorem isSome_standIns_iff (fresh : h.standIns = .empty) (requests : List Node) (name : ClassName) :
    (((ofHierarchy h).run requests).hierarchy.standIns.lookup? name).isSome ↔
      ∃ p ∈ ((ofHierarchy h).run requests).bodies, p.2.Allocates name := by
  have hs := consistent_ofHierarchy fresh
  have hi := (inStep_ofHierarchy fresh).run hs requests
  have hstart : Filled (ofHierarchy h) := fun _ he => absurd he List.not_mem_nil
  have hf := hstart.run hs requests
  rw [Option.isSome_iff_exists]
  constructor
  · rintro ⟨c, hc⟩
    obtain ⟨e, he, rfl, _⟩ := (hi.held _ _).1 hc
    obtain ⟨p, hp, object, arguments, hfills⟩ := hf e he
    exact ⟨p, hp, hfills.allocates_iff.2 rfl⟩
  · rintro ⟨p, hp, halloc⟩
    have hne : p.2.instructions ≠ [] := fun hnil => by
      obtain ⟨i, hi, _⟩ := halloc
      rw [hnil] at hi
      exact nomatch hi
    obtain ⟨subject, use, object, hnoted, _, hfills⟩ := hi.filled p hp hne
    exact ⟨_, (hi.held _ _).2 ⟨_, hnoted, hfills.allocates_iff.1 halloc, rfl⟩⟩

theorem Consistent.finding_iff (hs : Consistent h s) {subject sought : ClassName}
    {use : AnnotationUse} : s.hierarchy.finding subject sought = .found use ↔
      (s.hierarchy.lookup? sought).isSome ∧
        ((h.program.lookup? subject).bind fun c => c.annotations.find? (·.type = sought))
          = some use := by
  rw [Option.bind_eq_some_iff]
  constructor
  · intro hf
    obtain ⟨⟨c, hc, hu⟩, rfl⟩ := hs.declares_of_found hf
    obtain ⟨_, _, hsought, _⟩ := Hierarchy.finding_eq_found.1 hf
    exact ⟨Option.isSome_iff_ne_none.2 hsought, c, hc, hu⟩
  · rintro ⟨hsought, c, hc, hu⟩
    rw [← hs.program] at hc
    exact Hierarchy.finding_eq_found.2
      ⟨c, Hierarchy.lookup?_eq_some_iff.2 (.inl hc), Option.isSome_iff_ne_none.1 hsought, hu⟩

theorem idle_of_isFor {body : Body} {subject sought : ClassName}
    (hb : body.IsFor s.hierarchy subject sought)
    (hf : ∀ use, s.hierarchy.finding subject sought ≠ .found use) : body.Idle := by
  apply hb.idle
  cases hsubject : s.hierarchy.lookup? subject with
  | none => exact .inl rfl
  | some c =>
    cases hsought : s.hierarchy.lookup? sought with
    | none => exact .inr (.inl rfl)
    | some d =>
      cases huse : c.annotations.find? (·.type = sought) with
      | none => exact .inr (.inr ⟨c, rfl, huse⟩)
      | some use =>
        have hfound := Hierarchy.finding_eq_found.2 ⟨c, hsubject, by simp [hsought], huse⟩
        exact absurd hfound (hf use)

namespace Tells

variable {u : Synthesizer} {calls earlier later : List ReportedCall}

theorem split (ht : Tells s (earlier ++ later) u) : ∃ t, Tells s earlier t ∧ Tells t later u := by
  induction earlier generalizing s with
  | nil => exact ⟨s, .nil, ht⟩
  | cons r earlier ih =>
    cases ht with
    | cons hb rest =>
      obtain ⟨t, hearlier, hlater⟩ := ih rest
      exact ⟨t, .cons hb hearlier, hlater⟩

/-- The classes that are there after some calls were told are those that were there before and those
that the bodies of the calls allocate. -/
theorem isSome_lookup?_iff (fresh : h.standIns = .empty) (ht : Tells (ofHierarchy h) earlier t)
    (name : ClassName) : (t.hierarchy.lookup? name).isSome ↔
      (h.lookup? name).isSome ∨ ∃ r ∈ earlier, r.body.Allocates name := by
  obtain ⟨requests, rfl⟩ := ht.exists_run
  have hs := (consistent_ofHierarchy fresh).run requests
  have hbodies : (∃ p ∈ ((ofHierarchy h).run requests).bodies, p.2.Allocates name) ↔
      ∃ r ∈ earlier, r.body.Allocates name := by
    have hmem := fun b => ht.mem_bodies_iff (b := b)
    constructor
    · rintro ⟨p, hp, halloc⟩
      obtain ⟨r, hr, hbody⟩ := List.mem_map.1 ((hmem p.2).2 (List.mem_map_of_mem hp))
      exact ⟨r, hr, hbody ▸ halloc⟩
    · rintro ⟨r, hr, halloc⟩
      obtain ⟨p, hp, hbody⟩ := List.mem_map.1 ((hmem r.body).1 (List.mem_map_of_mem hr))
      exact ⟨p, hp, hbody ▸ halloc⟩
  rw [← hbodies, ← isSome_standIns_iff fresh]
  unfold Hierarchy.lookup?
  rw [hs.program, fresh]
  cases h.program.lookup? name <;> simp

theorem new_of_first (fresh : h.standIns = .empty) {first : ReportedCall}
    (ht : Tells (ofHierarchy h) (earlier ++ first :: later) u)
    (hfirst : ∀ r ∈ earlier, r.bodyId ≠ first.bodyId) :
    ∃ t n t', Tells (ofHierarchy h) earlier t ∧ t.body n = (.ok (t.bodies.length, first.body), t') := by
  obtain ⟨t, hearlier, hrest⟩ := ht.split
  cases hrest with
  | @cons _ t' _ _ _ n hb rest =>
    have ha := body_answer t n
    rw [hb] at ha
    rcases ha.bodies with hsame | ⟨_, _, _, _, hr, _⟩
    · -- a body that is kept was told by an earlier call, which would have its number
      obtain ⟨_, _, hstored⟩ := ha.stored
      have hmem : first.body ∈ earlier.map ReportedCall.body := by
        rw [hearlier.mem_bodies_iff, ← hsame]
        exact List.mem_map_of_mem (List.mem_of_getElem? hstored)
      obtain ⟨r, hr, hbody⟩ := List.mem_map.1 hmem
      have hin := List.mem_append_left (first :: later) hr
      have hin' := List.mem_append_right earlier (List.mem_cons_self (a := first) (l := later))
      exact absurd ((ht.bodyId_eq_iff fresh hin hin').2 hbody) (hfirst r hr)
    · refine ⟨t, n, t', hearlier, ?_⟩
      rw [hb, (Prod.mk.inj (Except.ok.inj hr)).1]

/-- Of the calls that share a body the first one tells it anew, so it is the body of its lookup in the
hierarchy as it is after the calls before. -/
theorem isFor_of_mem (fresh : h.standIns = .empty) (ht : Tells (ofHierarchy h) calls u)
    {r : ReportedCall} (hr : r ∈ calls) :
    ∃ t, Tells (ofHierarchy h) (calls.takeWhile (·.bodyId ≠ r.bodyId)) t ∧ ∃ subject sought,
      r.body.context = .lookup (.exact subject sought) ∧
      r.body.IsFor t.hierarchy subject sought := by
  obtain ⟨first, later, hsplit, hid⟩ :=
    exists_first (p := fun q => decide (q.bodyId ≠ r.bodyId)) hr (by simp)
  have hid : first.bodyId = r.bodyId := by simpa using hid
  have hearlier : ∀ q ∈ calls.takeWhile (·.bodyId ≠ r.bodyId), q.bodyId ≠ first.bodyId := by
    intro q hq
    have hne := List.mem_takeWhile_imp hq
    rw [hid]
    exact of_decide_eq_true hne
  have hmem : first ∈ calls := by
    rw [hsplit]
    exact List.mem_append_right _ List.mem_cons_self
  have hsame : first.body = r.body := (ht.bodyId_eq_iff fresh hmem hr).1 hid
  rw [hsplit] at ht
  obtain ⟨t, n, t', htold, hbody⟩ := ht.new_of_first fresh hearlier
  obtain ⟨requests, rfl⟩ := htold.exists_run
  have ha := body_answer ((ofHierarchy h).run requests) n
  rw [hbody, hsame] at ha
  exact ⟨_, htold, ((consistent_ofHierarchy fresh).run requests).isFor_of_new ha⟩

theorem foundAfter?_eq_some_iff (fresh : h.standIns = .empty) (ht : Tells (ofHierarchy h) earlier t)
    {subject sought : ClassName} {use : AnnotationUse} :
    h.foundAfter? earlier subject sought = some use ↔
      t.hierarchy.finding subject sought = .found use := by
  have hthere := ht.isSome_lookup?_iff fresh sought
  obtain ⟨requests, rfl⟩ := ht.exists_run
  have hs := (consistent_ofHierarchy fresh).run requests
  rw [hs.finding_iff, hthere, Hierarchy.foundAfter?]
  split
  next hknown => simp [hknown]
  next hunknown => simp [hunknown]

end Tells

end Synthesizer

namespace Analysis

open Synthesizer (Tells ofHierarchy)

/-! ### The messages of an analysis -/

theorem report_context {x y : Exploration} {e : Edge} {r : ReportedCall}
    (hr : report x e = .ok (some r, y)) : r.body.context = .lookup ⟨r.subject, r.sought⟩ := by
  unfold report at hr
  split at hr
  · exact nomatch hr
  · exact nomatch hr
  · split at hr
    · exact nomatch hr
    · exact nomatch hr
    next l _ hl =>
      obtain ⟨hcall, _⟩ := Prod.mk.inj (Except.ok.inj hr)
      rw [← Option.some.inj hcall]
      exact Context.eq_lookup_of_lookup? hl

theorem reportAll_context (edges : List Edge) : ∀ (x : Exploration) calls y,
    reportAll x edges = .ok (calls, y) →
      ∀ r ∈ calls, r.body.context = .lookup ⟨r.subject, r.sought⟩ := by
  induction edges with
  | nil =>
    intro x calls y hr r hmem
    obtain ⟨rfl, rfl⟩ := Prod.mk.inj (Except.ok.inj hr)
    exact nomatch hmem
  | cons e rest ih =>
    intro x calls z hr r hmem
    obtain ⟨call, y, later, he, hrest, rfl⟩ := reportAll_cons_iff.1 hr
    rcases List.mem_append.1 hmem with hmem | hmem
    · rw [Option.mem_toList] at hmem
      exact report_context (hmem ▸ he)
    · exact ih y later z hrest r hmem

/-- The result of a call speaks of its caller and says what is found after the calls before the first
that has its body, and the text of every write is the one of its constant. -/
structure Describes (h : Hierarchy) (calls : List ReportedCall) (r : ReportedCall)
    (subject sought : ClassName) : Prop where
  subject_eq : r.subject = .point subject
  sought_eq : r.sought = .point sought
  reads : Report.read? (Report.result r) = some (r.caller.text, account r.offset subject sought
    (h.foundAfter? (calls.takeWhile (·.bodyId ≠ r.bodyId)) subject sought))
  operands : ∀ i ∈ r.body.instructions, ∀ object value field, i.action = .put object value field →
    (r.body.constant? value).isSome

theorem describes_of_tells {h : Hierarchy} {u : Synthesizer} {calls : List ReportedCall}
    (fresh : h.standIns = .empty) (ht : Tells (ofHierarchy h) calls u)
    (hcontext : ∀ r ∈ calls, r.body.context = .lookup ⟨r.subject, r.sought⟩)
    {r : ReportedCall} (hr : r ∈ calls) :
    ∃ subject sought, Describes h calls r subject sought := by
  obtain ⟨t, htold, subject, sought, hlookup, hfor⟩ := ht.isFor_of_mem fresh hr
  obtain ⟨hsubject, hsought⟩ := Lookup.mk.inj
    (Context.lookup.inj ((hcontext r hr).symm.trans hlookup))
  refine ⟨subject, sought, ?_⟩
  cases hfound : h.foundAfter? (calls.takeWhile (·.bodyId ≠ r.bodyId)) subject sought with
  | some use =>
    have hf := (htold.foundAfter?_eq_some_iff fresh).1 hfound
    obtain ⟨c, hc, hne, hu⟩ := Hierarchy.finding_eq_found.1 hf
    obtain ⟨object, hfills⟩ := hfor.fills c use hc hne hu
    refine ⟨hsubject, hsought, ?_, fun i hi _ _ _ => hfills.isSome_constant? hi⟩
    rw [hfound, Report.read?_result, ReportedCall.description_of_fills hsubject hsought hfills]
  | none =>
    have hidle := Synthesizer.idle_of_isFor hfor fun use hf =>
      nomatch hfound.symm.trans ((htold.foundAfter?_eq_some_iff fresh).2 hf)
    refine ⟨hsubject, hsought, ?_, fun i hi => ?_⟩
    · rw [hfound, Report.read?_result, ReportedCall.description_of_idle hsubject hsought hidle]
    · rw [hidle.instructions] at hi
      exact nomatch hi

/-- **Every result of an analysis says what was found.**  Its message is the account of the first
annotation of the type on the class of the program, if there is one and the type was known when the
body was made, that is, when the calls before the first with the body had been reported.  It is the
account of nothing otherwise. -/
theorem run_describes (classes : List Class) :
    ∃ result, run classes = .ok result ∧ ∀ r ∈ result.calls, ∃ subject sought,
      Describes (.ofClasses classes) result.calls r subject sought := by
  have hx := (explored_ok (h := .ofClasses classes) rfl).2
  obtain ⟨calls, y, hok, _⟩ := reportAll_ok (exploredEdges (.ofClasses classes)) _ hx hx.linked
  have ht := reportAll_tells _ _ _ _ hok
  have hcontext := reportAll_context _ _ _ _ hok
  rw [(explored_traced _).synthesizer] at ht
  refine ⟨outcome _ (calls, y), by rw [run_eq, hok]; rfl, fun r hr => ?_⟩
  exact describes_of_tells rfl ht hcontext hr

def asking (offset : UInt32) (subject sought : ClassName) : Call :=
  ⟨classClass, Operation.methodName, Operation.descriptor, .virtual, offset,
    [.known (.classObject subject), .known (.classObject sought)]⟩

/-- A program that asks for labels of a card, of a box that has one without arguments, and of a lid that
has none. -/
def shelf : List Class :=
  [ ⟨"p/App", none, [], [], [], [⟨"main", "()V", ⟨true, true, false⟩, [
      asking 1 "p/Card" "p/Label", asking 2 "p/Box" "p/Mark", asking 3 "p/Lid" "p/Label"]⟩], true⟩,
    ⟨"p/Box", none, [], [⟨"p/Mark", .empty⟩], [], [], false⟩,
    ⟨"p/Card", none, [],
      [⟨"p/Mark", .empty⟩,
        ⟨"p/Label", .ofList [("text", .constant (.string "a, b")), ("sizes", .array
          [.constant (.int 3), .constant (.int 4)])]⟩,
        ⟨"p/Label", .ofList [("text", .constant (.string "c"))]⟩],
      [], [], false⟩,
    ⟨"p/Label", none, [], [], [], [], false⟩,
    ⟨"p/Lid", none, [], [⟨"p/Mark", .empty⟩], [], [], false⟩,
    ⟨"p/Mark", none, [], [], [], [], false⟩ ]

theorem run_describes_shelf :
    ((run shelf).toOption.map fun a => a.calls.map fun r => Report.read? (Report.result r)) = some
      [ some ("p/App.main()V", "getAnnotation at offset 1 on point<p/Card> for point<p/Label>: "
          ++ "modeled as new synthetic/annotation/p_0Card$p_0Label with "
          ++ "sizes=\"[3, 4]\", text=\"a, b\""),
        some ("p/App.main()V", "getAnnotation at offset 2 on point<p/Box> for point<p/Mark>: "
          ++ "modeled as new synthetic/annotation/p_0Box$p_0Mark"),
        some ("p/App.main()V", "getAnnotation at offset 3 on point<p/Lid> for point<p/Label>: "
          ++ "no matching annotation, modeled as an empty body") ] ∧
    ∃ result, run shelf = .ok result ∧ ∀ r ∈ result.calls, ∃ subject sought,
      Describes (.ofClasses shelf) result.calls r subject sought :=
  ⟨by decide +kernel, run_describes shelf⟩

end Analysis

end AnnotationGraph
