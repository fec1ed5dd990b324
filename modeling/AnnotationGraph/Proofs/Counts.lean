import AnnotationGraph.Proofs.Registration
import AnnotationGraph.Proofs.Trace
import Mathlib.Data.List.Dedup

/-!
# Counting what was made up

The calls of an analysis are answers that its synthesizer gives one after the other, and no other
requests are made.  So the bodies of the calls are those that are kept, and a body tells its number.
With the records of the synthesizer in step the classes that were made up can be counted by the
bodies that are not empty.

* `Synthesizer.nodup_bodies_run`    no two bodies of a run are equal;
* `Synthesizer.Tells`               calls that tell a synthesizer's answers;
* `Tells.mem_bodies_iff`            they tell all bodies that were made;
* `Analysis.reportAll_tells`        the reports of edges are such calls;
* `Analysis.run_counts`             records in step, and the count of an analysis.
-/

namespace AnnotationGraph

namespace Synthesizer

variable {h : Hierarchy} {s t u : Synthesizer} {calls more : List ReportedCall} {r : ReportedCall}

/-! ### The bodies of a run -/

theorem key_of_mem_run {requests : List Node} {p : String × Body}
    (hp : p ∈ ((ofHierarchy h).run requests).bodies) :
    ∃ subject sought, p.1 = pairKey (subject, sought) ∧
      p.2.context = .lookup (.exact subject sought) := by
  obtain ⟨id, hid⟩ := List.getElem?_of_mem hp
  obtain ⟨_, maker, _, _, _, _, subject, sought, hmaker, hkey, hcontext⟩ :=
    exists_maker requests (ofHierarchy h) (Nat.zero_le id) hid
  rw [Node.modeled?_eq_some_iff.1 hmaker] at hkey hcontext
  exact ⟨subject, sought, hkey, hcontext⟩

theorem nodup_bodies_run (fresh : h.standIns = .empty) (requests : List Node) :
    (((ofHierarchy h).run requests).bodies.map Prod.snd).Nodup := by
  have hkeys := (matched_run fresh requests).keys
  rw [List.Nodup, List.pairwise_map] at hkeys ⊢
  apply hkeys.imp_of_mem
  intro p q hp hq hne heq
  obtain ⟨subject, sought, hkey, hcontext⟩ := key_of_mem_run hp
  obtain ⟨subject', sought', hkey', hcontext'⟩ := key_of_mem_run hq
  rw [heq, hcontext'] at hcontext
  obtain ⟨rfl, rfl⟩ := Lookup.exact_inj (Context.lookup.inj hcontext)
  exact hne (hkey.trans hkey'.symm)

/-! ### Calls that tell answers -/

/-- Calls that tell the answers which one synthesizer gives on its way to another. -/
inductive Tells : Synthesizer → List ReportedCall → Synthesizer → Prop
  | nil {s : Synthesizer} : Tells s [] s
  | cons {s t u : Synthesizer} {r : ReportedCall} {calls : List ReportedCall} {n : Node}
      (hb : s.body n = (.ok (r.bodyId, r.body), t)) (rest : Tells t calls u) : Tells s (r :: calls) u

namespace Tells

theorem append (ht : Tells s calls t) (hu : Tells t more u) : Tells s (calls ++ more) u := by
  induction ht with
  | nil => exact hu
  | cons hb _ ih => exact .cons hb (ih hu)

theorem exists_run (ht : Tells s calls t) : ∃ requests, t = s.run requests := by
  induction ht with
  | nil => exact ⟨[], rfl⟩
  | @cons s t u r calls n hb _ ih =>
    obtain ⟨requests, hu⟩ := ih
    refine ⟨n :: requests, ?_⟩
    rw [run_cons, hb]
    exact hu

theorem prefix_bodies (ht : Tells s calls t) : s.bodies <+: t.bodies := by
  obtain ⟨requests, rfl⟩ := ht.exists_run
  exact prefix_bodies_run requests s

theorem stored (ht : Tells s calls t) (hr : r ∈ calls) :
    ∃ key, t.bodies[r.bodyId]? = some (key, r.body) := by
  induction ht with
  | nil => exact nomatch hr
  | @cons s t u r' calls n hb rest ih =>
    rcases List.mem_cons.1 hr with rfl | hr
    · -- later answers only add bodies, so the number keeps its meaning
      have ha := body_answer s n
      rw [hb] at ha
      obtain ⟨l, _, hstored⟩ := ha.stored
      obtain ⟨later, hlater⟩ := rest.prefix_bodies
      refine ⟨n.bodyKey l, ?_⟩
      rw [← hlater, List.getElem?_append_left (List.getElem?_eq_some_iff.1 hstored).1]
      exact hstored
    · exact ih hr

theorem told (ht : Tells s calls t) {p : String × Body} (hp : p ∈ t.bodies) :
    p ∈ s.bodies ∨ ∃ r ∈ calls, r.body = p.2 := by
  induction ht with
  | nil => exact .inl hp
  | @cons s t u r calls n hb _ ih =>
    rcases ih hp with hp | ⟨r', hr', hbody⟩
    · have ha := body_answer s n
      rw [hb] at ha
      rcases ha.bodies with hsame | ⟨_, _, body, _, hr, hadd, _⟩
      · exact .inl (hsame ▸ hp)
      · rw [hadd] at hp
        rcases List.mem_append.1 hp with hp | hp
        · exact .inl hp
        · refine .inr ⟨r, List.mem_cons_self, ?_⟩
          rw [List.mem_singleton.1 hp]
          exact (Prod.mk.inj (Except.ok.inj hr)).2
    · exact .inr ⟨r', List.mem_cons_of_mem r hr', hbody⟩

theorem mem_bodies_iff (ht : Tells (ofHierarchy h) calls t) {b : Body} :
    b ∈ calls.map ReportedCall.body ↔ b ∈ t.bodies.map Prod.snd := by
  rw [List.mem_map, List.mem_map]
  constructor
  · rintro ⟨r, hr, rfl⟩
    obtain ⟨key, hstored⟩ := ht.stored hr
    exact ⟨_, List.mem_of_getElem? hstored, rfl⟩
  · rintro ⟨p, hp, rfl⟩
    rcases ht.told hp with hold | htold
    · exact nomatch hold
    · exact htold

theorem bodyId_eq_iff (fresh : h.standIns = .empty) (ht : Tells (ofHierarchy h) calls t)
    {r r' : ReportedCall} (hr : r ∈ calls) (hr' : r' ∈ calls) :
    r.bodyId = r'.bodyId ↔ r.body = r'.body := by
  obtain ⟨key, hstored⟩ := ht.stored hr
  obtain ⟨key', hstored'⟩ := ht.stored hr'
  obtain ⟨requests, rfl⟩ := ht.exists_run
  constructor
  · intro hid
    rw [hid, hstored'] at hstored
    exact (Prod.mk.inj (Option.some.inj hstored)).2.symm
  · intro hbody
    have hmap := congrArg (Option.map Prod.snd) hstored
    have hmap' := congrArg (Option.map Prod.snd) hstored'
    rw [← List.getElem?_map] at hmap hmap'
    refine (List.getElem?_inj ?_ (nodup_bodies_run fresh requests)).1 (hmap.trans ?_)
    · exact (List.getElem?_eq_some_iff.1 hmap).1
    · rw [hmap']
      exact congrArg some hbody

theorem count (fresh : h.standIns = .empty) (ht : Tells (ofHierarchy h) calls t) :
    ((calls.map ReportedCall.body).filter (·.instructions ≠ [])).dedup.length = t.standInCount := by
  obtain ⟨requests, hrun⟩ := ht.exists_run
  have hnodup := nodup_bodies_run fresh requests
  have hcount := (matched_run fresh requests).bodyCount
  rw [← hrun] at hnodup hcount
  have hperm : ((calls.map ReportedCall.body).filter (·.instructions ≠ [])).dedup.Perm
      ((t.bodies.map Prod.snd).filter (·.instructions ≠ [])) := by
    rw [List.perm_ext_iff_of_nodup (List.nodup_dedup _) (hnodup.filter _)]
    intro b
    rw [List.mem_dedup, List.mem_filter, List.mem_filter, ht.mem_bodies_iff]
  rw [hperm.length_eq, ← List.countP_eq_length_filter, List.countP_map, hcount]
  rfl

end Tells

end Synthesizer

namespace Analysis

open Synthesizer (Tells Matched ofHierarchy)

theorem report_tells {x y : Exploration} {e : Edge} {call : Option ReportedCall}
    (hr : report x e = .ok (call, y)) : Tells x.synthesizer call.toList y.synthesizer := by
  unfold report at hr
  cases hn : x.graph.node? e.callee with
  | none =>
    rw [Exploration.body_unknown x hn] at hr
    exact nomatch hr
  | some n =>
    cases hl : n.modeled? with
    | none =>
      rw [Exploration.body_unmodeled hn hl] at hr
      obtain ⟨rfl, rfl⟩ := Prod.mk.inj (Except.ok.inj hr)
      exact .nil
    | some l =>
      rw [Exploration.body_modeled hn hl] at hr
      cases hb : x.synthesizer.body n with
      | mk result t =>
        rw [hb] at hr
        cases result with
        | error f => exact nomatch hr
        | ok made =>
          obtain ⟨bodyId, body⟩ := made
          dsimp only [Except.map, Except.mapError] at hr
          split at hr
          · exact nomatch hr
          · exact nomatch hr
          · obtain ⟨rfl, rfl⟩ := Prod.mk.inj (Except.ok.inj hr)
            exact .cons hb .nil

theorem reportAll_tells (edges : List Edge) : ∀ (x : Exploration) calls y,
    reportAll x edges = .ok (calls, y) → Tells x.synthesizer calls y.synthesizer := by
  induction edges with
  | nil =>
    intro x calls y hr
    obtain ⟨rfl, rfl⟩ := Prod.mk.inj (Except.ok.inj hr)
    exact .nil
  | cons e rest ih =>
    intro x calls z hr
    obtain ⟨call, y, later, he, hrest, rfl⟩ := reportAll_cons_iff.1 hr
    exact (report_tells he).append (ih y later z hrest)

/-- **The records of a synthesizer are in step, and an analysis counts by them.**  After any queries,
failing ones included, a synthesizer over any program has noted the very classes that it made up, one
for each annotation for which it has a body that is not empty.  So the count of an analysis is the
number of different bodies among its calls that are not empty, whether they are told apart by their
numbers or by what they are. -/
theorem run_counts :
    (∀ (program : ClassSpace) (requests : List Synthesizer.Request),
      Matched ((ofHierarchy ⟨program, .empty⟩).serveAll requests)) ∧
    ∀ classes, ∃ result, run classes = .ok result ∧
      (∀ r ∈ result.calls, ∀ r' ∈ result.calls, r.bodyId = r'.bodyId ↔ r.body = r'.body) ∧
      result.standInCount
        = ((result.calls.map ReportedCall.body).filter (·.instructions ≠ [])).dedup.length := by
  constructor
  · intro program requests
    rw [Synthesizer.serveAll_eq_run]
    exact Synthesizer.matched_run rfl _
  · intro classes
    have hx := (explored_ok (h := .ofClasses classes) rfl).2
    obtain ⟨calls, y, hok, _⟩ := reportAll_ok (exploredEdges (.ofClasses classes)) _ hx hx.linked
    have ht := reportAll_tells _ _ _ _ hok
    rw [(explored_traced _).synthesizer] at ht
    refine ⟨outcome _ (calls, y), by rw [run_eq, hok]; rfl, ?_, ?_⟩
    · exact fun r hr r' hr' => ht.bodyId_eq_iff rfl hr hr'
    · exact (ht.count rfl).symm

end Analysis

end AnnotationGraph
