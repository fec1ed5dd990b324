import AnnotationGraph.Proofs.Reports
import Mathlib.Data.Set.List

/-!
# Each question is reported once

Calls at one offset of a method that ask about one class lead along one edge, whatever annotations
they seek, and other calls lead along other edges.  So what is reported are the questions of a
program, each once, in the order of the edges to which they belong.

* `Question`                          what is reported once;
* `Hierarchy.number`, `.place`        the numbers of nodes, and the edge of a question;
* `Question.place_inj`                edges tell questions apart;
* `Analysis.run_enumerates`           the calls of an analysis are the questions, in order.
-/

namespace AnnotationGraph

/-- A method that asks, at one offset, for some annotation of a class. -/
@[ext]
structure Question (h : Hierarchy) where
  caller : MethodRef
  offset : UInt32
  subject : ClassName
  asked : ∃ sought, h.Asks caller offset subject sought

/-- The number of a node: kinds are numbered in the order in which they come first when the analyzed
classes are visited by their names, and methods and calls in their order. -/
def Hierarchy.number (h : Hierarchy) (kind : MethodRef × Option Abstraction) : Nat :=
  (h.added.map Node.identity).eraseDups.idxOf kind

def Hierarchy.place (h : Hierarchy) (caller : MethodRef) (offset : UInt32) (subject : ClassName) :
    Edge :=
  ⟨h.number (caller, none), offset, h.number (Operation.onClass.method, some (.point subject))⟩

variable {h : Hierarchy}

def Question.place (q : Question h) : Edge := h.place q.caller q.offset q.subject

open Analysis

theorem Analysis.Leads.place_eq {i : Inquiry} {e : Edge} (hi : Leads (explored h).graph i e) :
    h.place i.caller i.offset i.subject = e := by
  have hcaller := (explored_traced h).numbers.idxOf hi.caller
  have hcallee := (explored_traced h).numbers.idxOf hi.callee
  show Edge.mk _ _ _ = Edge.mk e.caller e.offset e.callee
  rw [← hi.offset, ← hcaller, ← hcallee]
  rfl

namespace Question

theorem exists_leads (q : Question h) : ∃ i ∈ h.inquiries, Leads (explored h).graph i q.place ∧
    i.caller = q.caller ∧ i.offset = q.offset ∧ i.subject = q.subject := by
  obtain ⟨sought, hasks⟩ := q.asked
  have hi : ⟨q.caller, q.offset, q.subject, sought⟩ ∈ h.inquiries := Hierarchy.mem_inquiries_iff.2 hasks
  obtain ⟨e, he⟩ := Analysis.exists_leads hi
  have hplace : q.place = e := he.place_eq
  exact ⟨_, hi, hplace ▸ he, rfl, rfl, rfl⟩

theorem mem_lookupEdges_iff {e : Edge} : e ∈ lookupEdges h ↔ ∃ q : Question h, q.place = e := by
  constructor
  · intro he
    obtain ⟨i, hi, hleads⟩ := mem_lookupEdges_iff_leads.1 he
    exact ⟨⟨i.caller, i.offset, i.subject, i.sought, Hierarchy.mem_inquiries_iff.1 hi⟩, hleads.place_eq⟩
  · rintro ⟨q, rfl⟩
    obtain ⟨i, hi, hleads, _⟩ := q.exists_leads
    exact mem_lookupEdges_iff_leads.2 ⟨i, hi, hleads⟩

theorem place_inj {p q : Question h} (heq : p.place = q.place) : p = q := by
  obtain ⟨i, _, hi, hcaller, hoffset, hsubject⟩ := p.exists_leads
  obtain ⟨j, _, hj, hcaller', hoffset', hsubject'⟩ := q.exists_leads
  rw [heq] at hi
  have hcallers := CallGraph.identity_of_find? hi.caller hj.caller
  have hcallees := CallGraph.identity_of_find? hi.callee hj.callee
  ext1
  · rw [← hcaller, ← hcaller']
    exact (Prod.mk.inj hcallers).1
  · rw [← hoffset, ← hoffset', hi.offset, hj.offset]
  · rw [← hsubject, ← hsubject']
    exact Abstraction.point.inj (Option.some.inj (Prod.mk.inj hcallees).2)

end Question

namespace Analysis

theorem exploredEdges_ascending (h : Hierarchy) :
    (exploredEdges h).Pairwise fun a b => compare a b = .lt := by
  rw [exploredEdges, OrderedMap.keys, List.pairwise_map]
  exact (explored h).graph.edges.ascending

/-- A reported call belongs to a question: it has the same caller and offset, and it reports the edge
of the question. -/
structure Belongs (q : Question h) (r : ReportedCall) : Prop where
  caller : r.caller = q.caller
  offset : r.offset = q.offset
  edge : ∃ l k, Reports (explored h).graph q.place l k r ∧ l.subject = .point q.subject

theorem Reports.belongs {q : Question h} {l k : Lookup} {r : ReportedCall}
    (hr : Reports (explored h).graph q.place l k r) : Belongs q r := by
  obtain ⟨i, _, hleads, hcaller, _, hsubject⟩ := q.exists_leads
  exact ⟨(hr.caller_eq hleads).trans hcaller, hr.offset, l, k, hr, hsubject ▸ hleads.subject hr.callee⟩

/-- **The calls of an analysis are the questions of the program, each once and in the order of their
edges.**  Edges are ordered by caller, offset and callee, and nodes are numbered as they come when
the analyzed classes are visited by their names, and methods and calls in their order. -/
theorem run_enumerates (classes : List Class) :
    ∃ result, run classes = .ok result ∧
      (∃ questions : List (Question (.ofClasses classes)),
        questions.Nodup ∧ (∀ q, q ∈ questions) ∧
        List.Forall₂ Belongs questions result.calls ∧
        questions.Pairwise fun p q => compare p.place q.place = .lt) ∧
      (targets (.ofClasses classes)).foldlM followClass (.start .standard (.ofClasses classes))
        = .ok (explored (.ofClasses classes)) ∧
      ∀ id n, (explored (.ofClasses classes)).graph.node? id = some n →
        (Hierarchy.ofClasses classes).number n.identity = id := by
  obtain ⟨result, hok, haligned⟩ := run_aligned classes
  have hwalk := (explored_ok (h := .ofClasses classes) rfl).1
  generalize Hierarchy.ofClasses classes = h at haligned hwalk ⊢
  obtain ⟨questions, hplaces⟩ : lookupEdges h ∈ Set.range (List.map (Question.place (h := h))) := by
    rw [Set.range_list_map]
    exact fun e he => Question.mem_lookupEdges_iff.1 he
  have hascending : questions.Pairwise fun p q => compare p.place q.place = .lt := by
    have hedges : (questions.map Question.place).Pairwise fun a b => compare a b = .lt := by
      rw [hplaces]
      exact (exploredEdges_ascending h).filter _
    exact List.pairwise_map.1 hedges
  refine ⟨result, hok, ⟨questions, ?_, ?_, ?_, hascending⟩, hwalk, ?_⟩
  · apply hascending.imp
    intro p q hlt heq
    have hself : compare p.place q.place = .eq := heq ▸ Std.ReflCmp.compare_self
    exact nomatch hlt.symm.trans hself
  · intro q
    have hq := Question.mem_lookupEdges_iff.2 ⟨q, rfl⟩
    rw [← hplaces, List.mem_map] at hq
    obtain ⟨p, hp, heq⟩ := hq
    exact Question.place_inj heq ▸ hp
  · rw [← hplaces, List.forall₂_map_left_iff] at haligned
    exact haligned.imp fun q r ⟨l, k, hr⟩ => hr.belongs
  · intro id n hn
    exact (explored_traced h).numbers.idxOf (CallGraph.find?_of_node? hn)

end Analysis

end AnnotationGraph
