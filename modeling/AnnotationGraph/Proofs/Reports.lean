import AnnotationGraph.Proofs.BodyKey
import AnnotationGraph.Proofs.Trace

/-!
# What an analysis reports

All inquiries about one class share a node, whose lookup is that of the first of them.  So each is
reported at its own place, but with the annotation that was sought by the first.

* `Inquiry`, `Hierarchy.inquiries`   what is asked in a program, in the order of the visits;
* `Hierarchy.Asks`                   which places ask which class for which annotation;
* `Hierarchy.firstSought?`           the annotation for which a class is asked first;
* `Analysis.run_reports`             the reports of an analysis.
-/

namespace AnnotationGraph

/-- A call that asks the object of one class for the annotation of another. -/
structure Inquiry where
  caller : MethodRef
  offset : UInt32
  subject : ClassName
  sought : ClassName
  deriving DecidableEq

def Inquiry.lookup (q : Inquiry) : Lookup := .exact q.subject q.sought

namespace Hierarchy

/-- What a call asks, if it resolves to the lookup method on class objects and both arguments are
known to be class objects. -/
def inquiry? (h : Hierarchy) (caller : MethodRef) (call : Call) : Option Inquiry :=
  if h.resolve? call.target = some Operation.onClass.method then
    match call.arguments[0]?, call.arguments[1]? with
    | some (ObjectKey.known (.classObject subject)), some (ObjectKey.known (.classObject sought)) =>
      some ⟨caller, call.offset, subject, sought⟩
    | _, _ => none
  else none

/-- What is asked in the analyzed classes of a program, in the order of classes, methods and calls. -/
def inquiries (h : Hierarchy) : List Inquiry :=
  (Analysis.targets h).flatMap fun c => c.methods.flatMap fun m =>
    m.calls.flatMap fun call => (h.inquiry? (c.methodRef m) call).toList

def firstSought? (h : Hierarchy) (subject : ClassName) : Option ClassName :=
  (h.inquiries.find? (·.subject = subject)).map Inquiry.sought

variable {h : Hierarchy}

theorem inquiry?_eq_some_iff {caller : MethodRef} {call : Call} {q : Inquiry} :
    h.inquiry? caller call = some q ↔ q.caller = caller ∧ q.offset = call.offset ∧
      h.resolve? call.target = some Operation.onClass.method ∧
      call.arguments[0]? = some (.known (.classObject q.subject)) ∧
      call.arguments[1]? = some (.known (.classObject q.sought)) := by
  unfold inquiry?
  constructor
  · intro hq
    split at hq
    next hr =>
      split at hq
      next subject sought h0 h1 =>
        rw [← Option.some.inj hq]
        exact ⟨rfl, rfl, hr, h0, h1⟩
      next => exact nomatch hq
    next => exact nomatch hq
  · rintro ⟨rfl, hoffset, hr, h0, h1⟩
    rw [if_pos hr, h0, h1, ← hoffset]

/-- A method of an analyzed class has a call at an offset that resolves to the lookup method on class
objects, on the object of one class and for the annotation of another. -/
def Asks (h : Hierarchy) (caller : MethodRef) (offset : UInt32) (subject sought : ClassName) :
    Prop :=
  ∃ c ∈ h.program.toList, c.analyzed = true ∧ ∃ m ∈ c.methods, ∃ call ∈ m.calls,
    caller = c.methodRef m ∧ offset = call.offset ∧
    h.resolve? call.target = some Operation.onClass.method ∧
    call.arguments[0]? = some (.known (.classObject subject)) ∧
    call.arguments[1]? = some (.known (.classObject sought))

theorem mem_inquiries_iff {q : Inquiry} :
    q ∈ h.inquiries ↔ h.Asks q.caller q.offset q.subject q.sought := by
  unfold inquiries Analysis.targets Asks
  simp only [List.mem_flatMap, List.mem_filter, Option.mem_toList, inquiry?_eq_some_iff, and_assoc]

theorem target?_eq_some_node_iff (caller : MethodRef) {call : Call} {l : Lookup} :
    h.target? call = some l.node ↔ ∃ q, h.inquiry? caller call = some q ∧ q.lookup = l := by
  rw [target?_eq_node_iff, Operation.lookup?_onClass]
  constructor
  · rintro ⟨hr, subject, sought, rfl, h0, h1⟩
    exact ⟨⟨caller, call.offset, subject, sought⟩, inquiry?_eq_some_iff.2 ⟨rfl, rfl, hr, h0, h1⟩, rfl⟩
  · rintro ⟨q, hq, rfl⟩
    obtain ⟨_, _, hr, h0, h1⟩ := inquiry?_eq_some_iff.1 hq
    exact ⟨hr, q.subject, q.sought, rfl, h0, h1⟩

theorem link?_eq_some_iff {caller m : MethodRef} {call : Call} {offset : UInt32} {n : Node} :
    h.link? m call = some ⟨caller, offset, n⟩ ↔
      h.target? call = some n ∧ m = caller ∧ call.offset = offset := by
  unfold link?
  rw [Option.map_eq_some_iff]
  constructor
  · rintro ⟨n', hn, heq⟩
    obtain ⟨h1, h2, h3⟩ := Link.mk.inj heq
    exact ⟨h3 ▸ hn, h1, h2⟩
  · rintro ⟨hn, rfl, rfl⟩
    exact ⟨n, hn, rfl⟩

theorem mem_links_iff {caller : MethodRef} {offset : UInt32} {l : Lookup} :
    ⟨caller, offset, l.node⟩ ∈ h.links ↔
      ∃ q ∈ h.inquiries, q.caller = caller ∧ q.offset = offset ∧ q.lookup = l := by
  unfold links inquiries linksBy
  simp only [List.mem_flatMap, Option.mem_toList, link?_eq_some_iff]
  constructor
  · rintro ⟨c, hc, m, hm, call, hcall, htarget, hcaller, hoffset⟩
    obtain ⟨q, hq, hl⟩ := (target?_eq_some_node_iff (c.methodRef m)).1 htarget
    obtain ⟨hqm, hqo, _⟩ := inquiry?_eq_some_iff.1 hq
    exact ⟨q, ⟨c, hc, m, hm, call, hcall, hq⟩, hqm.trans hcaller, hqo.trans hoffset, hl⟩
  · rintro ⟨q, ⟨c, hc, m, hm, call, hcall, hq⟩, hcaller, hoffset, hl⟩
    obtain ⟨hqm, hqo, _⟩ := inquiry?_eq_some_iff.1 hq
    exact ⟨c, hc, m, hm, call, hcall, (target?_eq_some_node_iff _).2 ⟨q, hq, hl⟩,
      hqm.symm.trans hcaller, hqo.symm.trans hoffset⟩

theorem filterMap_target? (caller : MethodRef) (call : Call) :
    (h.target? call).toList.filterMap Node.modeled?
      = (h.inquiry? caller call).toList.map Inquiry.lookup := by
  cases hq : h.inquiry? caller call with
  | some q =>
    have hn := (target?_eq_some_node_iff caller).2 ⟨q, hq, rfl⟩
    rw [hn]
    show [q.lookup.node].filterMap Node.modeled? = [q.lookup]
    rw [List.filterMap_cons_some (Node.modeled?_node q.lookup)]
    rfl
  | none =>
    cases hn : h.target? call with
    | none => rfl
    | some n =>
      have hnone : n.modeled? = none := by
        cases hl : n.modeled? with
        | none => rfl
        | some l =>
          rw [Node.modeled?_eq_some_iff.1 hl] at hn
          obtain ⟨q, hq', _⟩ := (target?_eq_some_node_iff caller).1 hn
          exact absurd (hq.symm.trans hq') (by simp)
      show [n].filterMap Node.modeled? = []
      rw [List.filterMap_cons_none hnone]
      rfl

theorem modeled?_entry (m : MethodRef) : m.entry.modeled? = none := by
  cases hl : m.entry.modeled? with
  | none => rfl
  | some l => exact nomatch (Node.mk.inj (Node.modeled?_eq_some_iff.1 hl)).2

theorem filterMap_added : h.added.filterMap Node.modeled? = h.inquiries.map Inquiry.lookup := by
  unfold added inquiries addedBy
  rw [List.filterMap_flatMap, List.map_flatMap]
  apply List.flatMap_congr
  intro c _
  rw [List.filterMap_flatMap, List.map_flatMap]
  apply List.flatMap_congr
  intro m _
  rw [List.filterMap_cons_none (modeled?_entry _), List.filterMap_flatMap, List.map_flatMap]
  apply List.flatMap_congr
  intro call _
  exact filterMap_target? (c.methodRef m) call

end Hierarchy

/-! ### The first inquiry about a class -/

theorem Node.identity_eq_iff {n : Node} {l : Lookup} :
    n.identity = l.node.identity ↔ ∃ k, n = Lookup.node k ∧ k.subject = l.subject := by
  obtain ⟨method, context⟩ := n
  constructor
  · intro hlike
    obtain ⟨hm, hc⟩ := Prod.mk.inj hlike
    change method = Operation.onClass.method at hm
    cases context with
    | everywhere => exact nomatch hc
    | lookup k => exact ⟨k, by rw [hm]; rfl, Option.some.inj hc⟩
  · rintro ⟨k, hk, hsubject⟩
    rw [hk]
    show (_, some k.subject) = (_, some l.subject)
    rw [hsubject]
    rfl

theorem find?_identity (l : Lookup) (nodes : List Node) :
    nodes.find? (·.identity = l.node.identity)
      = ((nodes.filterMap Node.modeled?).find? (·.subject = l.subject)).map Lookup.node := by
  induction nodes with
  | nil => rfl
  | cons n rest ih =>
    cases hn : n.modeled? with
    | none =>
      have hunlike : ¬ n.identity = l.node.identity := by
        intro hlike
        obtain ⟨k, hk, _⟩ := Node.identity_eq_iff.1 hlike
        rw [hk, Node.modeled?_node] at hn
        exact nomatch hn
      rw [List.filterMap_cons_none hn, ← ih]
      exact List.find?_cons_of_neg (by simpa using hunlike)
    | some k =>
      have hk := Node.modeled?_eq_some_iff.1 hn
      rw [List.filterMap_cons_some hn]
      by_cases hsubject : k.subject = l.subject
      · have hlike := Node.identity_eq_iff.2 ⟨k, hk, hsubject⟩
        rw [List.find?_cons_of_pos (by simpa using hlike),
          List.find?_cons_of_pos (by simpa using hsubject), hk]
        rfl
      · have hunlike : ¬ n.identity = l.node.identity := by
          intro hlike
          obtain ⟨k', hk', hsubject'⟩ := Node.identity_eq_iff.1 hlike
          have hsame : k = k' := Context.lookup.inj (Node.mk.inj (hk.symm.trans hk')).2
          exact hsubject (hsame ▸ hsubject')
        rw [List.find?_cons_of_neg (by simpa using hunlike),
          List.find?_cons_of_neg (by simpa using hsubject)]
        exact ih

theorem Hierarchy.firstSought?_of_find? {h : Hierarchy} {l : Lookup}
    (hl : h.added.find? (·.identity = l.node.identity) = some l.node) :
    ∃ subject sought, l = .exact subject sought ∧ h.firstSought? subject = some sought := by
  rw [find?_identity, filterMap_added, List.find?_map, Option.map_map] at hl
  obtain ⟨q, hq, hnode⟩ := Option.map_eq_some_iff.1 hl
  have hlookup : q.lookup = l := Context.lookup.inj (Node.mk.inj hnode).2
  refine ⟨q.subject, q.sought, hlookup.symm, ?_⟩
  have hfirst : h.inquiries.find? (·.subject = q.subject) = some q := by
    rw [← hq, ← hlookup]
    congr 1
    funext k
    show decide (k.subject = q.subject) = decide (k.lookup.subject = q.lookup.subject)
    rw [decide_eq_decide]
    exact ⟨fun hk => congrArg Abstraction.point hk, fun hk => Abstraction.point.inj hk⟩
  unfold firstSought?
  rw [hfirst]
  rfl

namespace Analysis

open CallGraph (find?_eq_some_iff find?_of_node? identity_of_find? mem_of_node?)

variable {h : Hierarchy} {l k : Lookup} {e : Edge} {r : ReportedCall}

/-! ### What a report says -/

theorem firstSought?_of_mem (hl : l.node ∈ (explored h).graph.nodes) :
    ∃ subject sought, l = .exact subject sought ∧ h.firstSought? subject = some sought := by
  obtain ⟨id, hid⟩ := List.getElem?_of_mem hl
  exact Hierarchy.firstSought?_of_find? ((explored_traced h).lists.first_of_node? hid)

structure Leads (g : CallGraph) (q : Inquiry) (e : Edge) : Prop where
  caller : g.find? q.caller.entry = some e.caller
  offset : q.offset = e.offset
  callee : g.find? q.lookup.node = some e.callee

theorem Leads.subject {q : Inquiry} (hq : Leads (explored h).graph q e)
    (hl : (explored h).graph.node? e.callee = some l.node) : l.subject = .point q.subject :=
  Option.some.inj (Prod.mk.inj (identity_of_find? (find?_of_node? hl) hq.callee)).2

theorem exists_leads {q : Inquiry} (hq : q ∈ h.inquiries) : ∃ e, Leads (explored h).graph q e := by
  have hlink := Hierarchy.mem_links_iff.2 ⟨q, hq, rfl, rfl, rfl⟩
  obtain ⟨hcaller, hcallee⟩ := (explored_traced h).ends _ hlink
  obtain ⟨caller, hfindr⟩ := (explored_traced h).lists.exists_find? hcaller
  obtain ⟨callee, hfinde⟩ := (explored_traced h).lists.exists_find? hcallee
  exact ⟨⟨caller, q.offset, callee⟩, hfindr, rfl, hfinde⟩

/-- The edges to nodes with bodies are those to which inquiries lead. -/
theorem mem_lookupEdges_iff_leads :
    e ∈ lookupEdges h ↔ ∃ q ∈ h.inquiries, Leads (explored h).graph q e := by
  rw [mem_lookupEdges_iff]
  constructor
  · rintro ⟨he, l, hl⟩
    obtain ⟨⟨caller, offset, callee⟩, hlink, hcaller, hoffset, hcallee⟩ :=
      ((explored_traced h).joins e).1 he
    have hlike := identity_of_find? hcallee (find?_of_node? hl)
    obtain ⟨k, hk, _⟩ := Node.identity_eq_iff.1 hlike
    change callee = k.node at hk
    subst hk
    obtain ⟨q, hq, rfl, rfl, rfl⟩ := Hierarchy.mem_links_iff.1 hlink
    exact ⟨q, hq, hcaller, hoffset, hcallee⟩
  · rintro ⟨q, hq, hleads⟩
    have hlink := Hierarchy.mem_links_iff.2 ⟨q, hq, rfl, rfl, rfl⟩
    refine ⟨((explored_traced h).joins e).2 ⟨_, hlink, hleads.caller, hleads.offset, hleads.callee⟩, ?_⟩
    obtain ⟨n, hn, hlike⟩ := find?_eq_some_iff.1 hleads.callee
    obtain ⟨l, rfl, _⟩ := Node.identity_eq_iff.1 hlike
    exact ⟨l, hn⟩

/-- A report answers an inquiry: it has the same place, and tells a first inquiry whose body has the
key of the first inquiry about the subject. -/
structure Answers (h : Hierarchy) (q : Inquiry) (r : ReportedCall) : Prop where
  caller : r.caller = q.caller
  offset : r.offset = q.offset
  told : ∃ subject sought first, r.subject = .point subject ∧ r.sought = .point sought ∧
    h.firstSought? subject = some sought ∧ h.firstSought? q.subject = some first ∧
    (Lookup.exact subject sought).spelling = (Lookup.exact q.subject first).spelling

theorem Reports.caller_eq (hr : Reports (explored h).graph e l k r) {q : Inquiry}
    (hq : Leads (explored h).graph q e) : r.caller = q.caller := by
  obtain ⟨n, hn, hmethod⟩ := hr.caller
  rw [hmethod]
  exact (Prod.mk.inj (identity_of_find? (find?_of_node? hn) hq.caller)).1

theorem Reports.answers (hr : Reports (explored h).graph e l k r) {q : Inquiry}
    (hq : Leads (explored h).graph q e) : Answers h q r := by
  obtain ⟨subject, sought, rfl, hfirst⟩ := firstSought?_of_mem hr.made
  have hsubject := hq.subject hr.callee
  obtain ⟨asked, first, rfl, hfirst'⟩ := firstSought?_of_mem (mem_of_node? hr.callee)
  have hasked : asked = q.subject := Abstraction.point.inj hsubject
  subst hasked
  exact ⟨hr.caller_eq hq, hr.offset.trans hq.offset.symm, subject, sought, first, hr.subject,
    hr.sought, hfirst, hfirst', ((Lookup.bodyKey_eq_iff _ _).1 hr.alike).symm⟩

theorem run_answers (classes : List Class) :
    ∃ result, run classes = .ok result ∧
      (∀ r ∈ result.calls, ∃ q ∈ (Hierarchy.ofClasses classes).inquiries,
        Answers (.ofClasses classes) q r) ∧
      ∀ q ∈ (Hierarchy.ofClasses classes).inquiries, ∃ r ∈ result.calls,
        Answers (.ofClasses classes) q r := by
  obtain ⟨result, hok, haligned⟩ := run_aligned classes
  refine ⟨result, hok, ?_, ?_⟩
  · intro r hr
    obtain ⟨e, he, l, k, hreports⟩ := forall₂_mem_right haligned hr
    obtain ⟨q, hq, hleads⟩ := mem_lookupEdges_iff_leads.1 he
    exact ⟨q, hq, hreports.answers hleads⟩
  · intro q hq
    obtain ⟨e, hleads⟩ := exists_leads hq
    obtain ⟨r, hr, l, k, hreports⟩ :=
      forall₂_mem_left haligned (mem_lookupEdges_iff_leads.2 ⟨q, hq, hleads⟩)
    exact ⟨r, hr, hreports.answers hleads⟩

theorem Answers.told_first {q : Inquiry} (ha : Answers h q r) {first : ClassName}
    (hfirst : h.firstSought? q.subject = some first)
    (hown : ∀ subject sought, h.firstSought? subject = some sought →
      (Lookup.exact subject sought).spelling = (Lookup.exact q.subject first).spelling →
        subject = q.subject) :
    r.subject = .point q.subject ∧ r.sought = .point first := by
  obtain ⟨subject, sought, first', hsubject, hsought, htold, hfirst', hspelled⟩ := ha.told
  rw [← Option.some.inj (hfirst.symm.trans hfirst')] at hspelled
  have hsame := hown subject sought htold hspelled
  rw [hsame, hfirst] at htold
  exact ⟨hsame ▸ hsubject, by rw [hsought, Option.some.inj htold]⟩

/-- **Every inquiry is reported, as the first about its subject.**  An analysis reports something at
exactly the places at which something is asked, and all it reports are first inquiries.  If the key of
the first inquiry about a class is no other's, what is reported of the class is its inquiries, each
with the annotation that was sought by the first. -/
theorem run_reports (classes : List Class) :
    ∃ result, run classes = .ok result ∧
      (∀ caller offset, (∃ r ∈ result.calls, r.caller = caller ∧ r.offset = offset) ↔
        ∃ subject sought, (Hierarchy.ofClasses classes).Asks caller offset subject sought) ∧
      (∀ r ∈ result.calls, ∃ subject sought, r.subject = .point subject ∧ r.sought = .point sought ∧
        (Hierarchy.ofClasses classes).firstSought? subject = some sought) ∧
      ∀ subject first, (Hierarchy.ofClasses classes).firstSought? subject = some first →
        (∀ subject' first', (Hierarchy.ofClasses classes).firstSought? subject' = some first' →
          (Lookup.exact subject' first').spelling = (Lookup.exact subject first).spelling →
            subject' = subject) →
        ∀ caller offset sought,
          (∃ r ∈ result.calls, r.caller = caller ∧ r.offset = offset ∧ r.subject = .point subject ∧
            r.sought = sought) ↔
          sought = .point first ∧
            ∃ asked, (Hierarchy.ofClasses classes).Asks caller offset subject asked := by
  obtain ⟨result, hok, hsound, hall⟩ := run_answers classes
  generalize Hierarchy.ofClasses classes = h at hsound hall ⊢
  refine ⟨result, hok, ?_, ?_, ?_⟩
  · intro caller offset
    constructor
    · rintro ⟨r, hr, rfl, rfl⟩
      obtain ⟨q, hq, ha⟩ := hsound r hr
      have hasks := Hierarchy.mem_inquiries_iff.1 hq
      rw [← ha.caller, ← ha.offset] at hasks
      exact ⟨q.subject, q.sought, hasks⟩
    · rintro ⟨subject, sought, hasks⟩
      obtain ⟨r, hr, ha⟩ := hall ⟨caller, offset, subject, sought⟩ (Hierarchy.mem_inquiries_iff.2 hasks)
      exact ⟨r, hr, ha.caller, ha.offset⟩
  · intro r hr
    obtain ⟨q, _, ha⟩ := hsound r hr
    obtain ⟨subject, sought, _, hsubject, hsought, htold, _⟩ := ha.told
    exact ⟨subject, sought, hsubject, hsought, htold⟩
  · intro subject first hfirst hown caller offset sought
    constructor
    · rintro ⟨r, hr, rfl, rfl, hsubject, rfl⟩
      obtain ⟨q, hq, ha⟩ := hsound r hr
      obtain ⟨subject', sought', first', hsubject', _, htold, hfirst', hspelled⟩ := ha.told
      have hs : subject' = subject := Abstraction.point.inj (hsubject'.symm.trans hsubject)
      rw [hs] at htold hspelled
      rw [Option.some.inj (htold.symm.trans hfirst)] at hspelled
      have hq' : q.subject = subject := hown q.subject first' hfirst' hspelled.symm
      subst hq'
      have hasks := Hierarchy.mem_inquiries_iff.1 hq
      rw [← ha.caller, ← ha.offset] at hasks
      exact ⟨(ha.told_first hfirst hown).2, q.sought, hasks⟩
    · rintro ⟨rfl, asked, hasks⟩
      obtain ⟨r, hr, ha⟩ := hall ⟨caller, offset, subject, asked⟩ (Hierarchy.mem_inquiries_iff.2 hasks)
      obtain ⟨hsubject, hsought⟩ := ha.told_first hfirst hown
      exact ⟨r, hr, ha.caller, ha.offset, hsubject, hsought⟩

def twoSought : List Class :=
  [ ⟨"p/App", none, [], [], [], [⟨"main", "()V", ⟨false, false, false⟩,
      [ ⟨classClass, Operation.methodName, Operation.descriptor, .virtual, 1,
          [.known (.classObject "p/C"), .known (.classObject "p/A")]⟩,
        ⟨classClass, Operation.methodName, Operation.descriptor, .virtual, 2,
          [.known (.classObject "p/C"), .known (.classObject "p/B")]⟩ ]⟩], true⟩,
    ⟨"p/C", none, [], [⟨"p/A", .ofList [("first", .constant (.int 1))]⟩,
      ⟨"p/B", .ofList [("second", .constant (.int 2))]⟩], [], [], true⟩,
    ⟨"p/A", none, [], [], [], [], true⟩,
    ⟨"p/B", none, [], [], [], [], true⟩ ]

/-- Both inquiries are reported with the annotation of the first. -/
theorem run_reports_twoSought :
    (Hierarchy.ofClasses twoSought).firstSought? "p/C" = some "p/A" ∧
    (Lookup.exact "p/C" "p/A").Plain ∧
    ∃ result, run twoSought = .ok result ∧ ∀ caller offset sought,
      (∃ r ∈ result.calls, r.caller = caller ∧ r.offset = offset ∧ r.subject = .point "p/C" ∧
        r.sought = sought) ↔
      sought = .point "p/A" ∧
        ∃ asked, (Hierarchy.ofClasses twoSought).Asks caller offset "p/C" asked := by
  have hfirst : (Hierarchy.ofClasses twoSought).firstSought? "p/C" = some "p/A" := by
    decide +kernel
  have hplain : (Lookup.exact "p/C" "p/A").Plain := by decide +kernel
  obtain ⟨result, hok, _, _, hset⟩ := run_reports twoSought
  refine ⟨hfirst, hplain, result, hok, hset "p/C" "p/A" hfirst fun subject sought _ hspelled => ?_⟩
  exact (Lookup.exact_inj (hplain.eq_exact_of_spelling hspelled.symm)).1.symm

/-- The second inquiry is not reported with the annotation that it seeks. -/
theorem run_misses_second_sought :
    ∃ result, run twoSought = .ok result ∧ ¬ ∀ caller offset subject sought,
      (∃ r ∈ result.calls, r.caller = caller ∧ r.offset = offset ∧ r.subject = .point subject ∧
        r.sought = .point sought) ↔
      (Hierarchy.ofClasses twoSought).Asks caller offset subject sought := by
  have hcalls : (run twoSought).map (fun result => result.calls.map fun r => (r.offset, r.sought))
      = .ok [(1, .point "p/A"), (2, .point "p/A")] := by decide +kernel
  have hasked : ⟨⟨"p/App", "main", "()V"⟩, 2, "p/C", "p/B"⟩ ∈
      (Hierarchy.ofClasses twoSought).inquiries := by decide +kernel
  cases hrun : run twoSought with
  | error e =>
    rw [hrun] at hcalls
    exact nomatch hcalls
  | ok result =>
    rw [hrun] at hcalls
    have htold : (result.calls.map fun r => (r.offset, r.sought)) = _ := Except.ok.inj hcalls
    refine ⟨result, rfl, fun hall => ?_⟩
    obtain ⟨r, hr, _, hoffset, _, hsought⟩ := (hall _ _ _ _).2 (Hierarchy.mem_inquiries_iff.1 hasked)
    have hmem : (r.offset, r.sought) ∈ result.calls.map fun r => (r.offset, r.sought) :=
      List.mem_map_of_mem hr
    rw [htold, hoffset, hsought] at hmem
    exact absurd hmem (by decide)

end Analysis

end AnnotationGraph
