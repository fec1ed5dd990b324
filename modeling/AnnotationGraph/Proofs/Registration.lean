import AnnotationGraph.Proofs.Consistency

/-!
# Stand-ins, made-up classes and bodies keep in step

A synthesizer keeps three records: the stand-ins that it has noted by subject and annotation type,
the classes that it has made up, by their names, and the bodies under their keys.  A body that is not
empty comes with one new entry in each of the other two, and nothing else changes them.

* `Hierarchy.StandsFor`        what a made-up class is;
* `Synthesizer.InStep`         the three records tell the same;
* `InStep.answer`, `.run`      requests keep that;
* `Synthesizer.serveAll`       all kinds of queries, one after the other;
* `Synthesizer.Matched`        what the records of a synthesizer are after any queries.
-/

namespace AnnotationGraph

/-- A class stands for the first annotation of a type on a class. -/
structure Hierarchy.StandsFor (h : Hierarchy) (subject type : ClassName) (c : Class) : Prop where
  superName : c.superName = some objectClass
  interfaces : c.interfaces = [type]
  methods : c.methods = []
  fields : ∃ owner use, h.lookup? subject = some owner ∧ owner.annotations.find? (·.type = type) = some use ∧
    c.fields.map Field.name = use.arguments.keys
  ascending : (c.fields.map Field.name).Pairwise (· < ·)

theorem StandIn.names_ofUse (subject : ClassName) (use : AnnotationUse) :
    (ofUse subject use).fields.map Field.name = use.arguments.keys := by
  show (use.arguments.entries.map field).map Field.name = use.arguments.entries.map Prod.fst
  rw [List.map_map]
  rfl

theorem StandIn.ascending_ofUse (subject : ClassName) (use : AnnotationUse) :
    ((ofUse subject use).fields.map Field.name).Pairwise (· < ·) := by
  rw [names_ofUse, OrderedMap.keys, List.pairwise_map]
  exact use.arguments.ascending.imp fun h => compareOfLessAndEq_eq_lt.1 h

theorem nodup_keys_concat {κ α : Type} {l : List (κ × α)} {k : κ} (v : α)
    (h : (l.map Prod.fst).Nodup) (hk : ∀ e ∈ l, e.1 ≠ k) : ((l ++ [(k, v)]).map Prod.fst).Nodup := by
  rw [List.map_append, List.nodup_append]
  refine ⟨h, by simp, ?_⟩
  intro a ha b hb
  obtain ⟨e, he, rfl⟩ := List.mem_map.1 ha
  obtain rfl : b = k := by simpa using hb
  exact hk e he

namespace Synthesizer

def pairKey (pair : ClassName × ClassName) : String :=
  (Lookup.exact pair.1 pair.2).node.bodyKey (.exact pair.1 pair.2)

/-- The records of a synthesizer tell the same. -/
structure InStep (s : Synthesizer) : Prop where
  pairs : (s.standIns.map Prod.fst).Nodup
  keys : (s.bodies.map Prod.fst).Nodup
  /-- the made-up classes are those that are noted, each under its own name -/
  held : ∀ name c, s.hierarchy.standIns.lookup? name = some c ↔
    ∃ e ∈ s.standIns, StandIn.name e.1.1 e.1.2 = name ∧ e.2 = c
  made : ∀ e ∈ s.standIns, ∃ p ∈ s.bodies, p.1 = pairKey e.1
  /-- a body that is not empty fills a stand-in that is noted -/
  filled : ∀ p ∈ s.bodies, p.2.instructions ≠ [] → ∃ subject use object,
    ((subject, use.type), StandIn.ofUse subject use) ∈ s.standIns ∧
    p.2.context = .lookup (.exact subject use.type) ∧
    p.2.Fills (StandIn.name subject use.type) object use.arguments.entries
  classCount : s.standInCount = s.hierarchy.standIns.size
  bodyCount : s.standInCount = s.bodies.countP fun p => p.2.instructions ≠ []

variable {h : Hierarchy} {s s' : Synthesizer} {node : Node} {r : Except Fault (Nat × Body)}

theorem inStep_ofHierarchy (fresh : h.standIns = .empty) : InStep (.ofHierarchy h) where
  pairs := .nil
  keys := .nil
  held name c := by simp [ofHierarchy, fresh]
  made _ he := nomatch he
  filled _ hp := nomatch hp
  classCount := by simp [ofHierarchy, standInCount, fresh]
  bodyCount := rfl

/-! ### What one request adds -/

theorem standIn_new {subject : ClassName} {use : AnnotationUse}
    (hnew : s.standIns.lookup (subject, use.type) = none)
    (hfree : s.hierarchy.standIns.lookup? (StandIn.name subject use.type) = none) :
    s.standIn subject use = (StandIn.ofUse subject use,
      { s with
        hierarchy := { s.hierarchy with
          standIns := s.hierarchy.standIns.insert (StandIn.ofUse subject use) }
        standIns := s.standIns ++ [((subject, use.type), StandIn.ofUse subject use)] }) := by
  have hregister : s.hierarchy.register (StandIn.ofUse subject use)
      = (StandIn.ofUse subject use, { s.hierarchy with
          standIns := s.hierarchy.standIns.insert (StandIn.ofUse subject use) }) := by
    unfold Hierarchy.register
    rw [show (StandIn.ofUse subject use).name = StandIn.name subject use.type from rfl, hfree]
  unfold standIn
  rw [hnew, hregister]

namespace InStep

theorem addIdle (hi : InStep s) {key : String} {body : Body} {warnings : List Warning}
    (hkey : ∀ p ∈ s.bodies, p.1 ≠ key) (hb : body.instructions = []) :
    InStep { s with warnings, bodies := s.bodies ++ [(key, body)] } where
  pairs := hi.pairs
  keys := nodup_keys_concat body hi.keys hkey
  held := hi.held
  made e he := by
    obtain ⟨p, hp, hpair⟩ := hi.made e he
    exact ⟨p, List.mem_append_left _ hp, hpair⟩
  filled p hp hne := by
    rcases List.mem_append.1 hp with hp | hp
    · exact hi.filled p hp hne
    · rw [List.mem_singleton.1 hp] at hne
      exact absurd hb hne
  classCount := hi.classCount
  bodyCount := by
    show s.standInCount = _
    rw [List.countP_append, hi.bodyCount]
    simp [hb]

/-- What is noted for a pair has its body, so a pair without a body is new to all records. -/
theorem fresh_of_key (hi : InStep s) {subject type : ClassName}
    (hkey : ∀ p ∈ s.bodies, p.1 ≠ pairKey (subject, type)) :
    (∀ e ∈ s.standIns, e.1 ≠ (subject, type)) ∧
      s.hierarchy.standIns.lookup? (StandIn.name subject type) = none := by
  have hpairs : ∀ e ∈ s.standIns, e.1 ≠ (subject, type) := by
    intro e he heq
    obtain ⟨p, hp, hpair⟩ := hi.made e he
    exact hkey p hp (heq ▸ hpair)
  refine ⟨hpairs, ?_⟩
  cases hc : s.hierarchy.standIns.lookup? (StandIn.name subject type) with
  | none => rfl
  | some c =>
    obtain ⟨e, he, hname, _⟩ := (hi.held _ c).1 hc
    obtain ⟨hsubject, htype⟩ := StandIn.name_inj hname
    exact absurd (Prod.ext hsubject htype) (hpairs e he)

theorem held_insert (hi : InStep s) {subject : ClassName} {use : AnnotationUse}
    (hpairs : ∀ e ∈ s.standIns, e.1 ≠ (subject, use.type)) (name : ClassName) (c : Class) :
    (s.hierarchy.standIns.insert (StandIn.ofUse subject use)).lookup? name = some c ↔
      ∃ e ∈ s.standIns ++ [((subject, use.type), StandIn.ofUse subject use)],
        StandIn.name e.1.1 e.1.2 = name ∧ e.2 = c := by
  rw [ClassSpace.lookup?_insert]
  by_cases hname : name = (StandIn.ofUse subject use).name
  · rw [if_pos hname]
    constructor
    · intro hc
      have hlast := List.mem_append_right s.standIns
        (List.mem_singleton_self ((subject, use.type), StandIn.ofUse subject use))
      exact ⟨_, hlast, hname.symm, Option.some.inj hc⟩
    · rintro ⟨e, he, hename, rfl⟩
      rcases List.mem_append.1 he with he | he
      · obtain ⟨hsubject, htype⟩ := StandIn.name_inj (hename.trans hname)
        exact absurd (Prod.ext hsubject htype) (hpairs e he)
      · rw [List.mem_singleton.1 he]
  · rw [if_neg hname, hi.held]
    constructor
    · rintro ⟨e, he, hec⟩
      exact ⟨e, List.mem_append_left _ he, hec⟩
    · rintro ⟨e, he, hename, hec⟩
      rcases List.mem_append.1 he with he | he
      · exact ⟨e, he, hename, hec⟩
      · rw [List.mem_singleton.1 he] at hename
        exact absurd hename.symm hname

theorem addFilled (hi : InStep s) {subject : ClassName} {use : AnnotationUse} {body : Body}
    {object : Nat} (hkey : ∀ p ∈ s.bodies, p.1 ≠ pairKey (subject, use.type))
    (hcontext : body.context = .lookup (.exact subject use.type))
    (hb : body.Fills (StandIn.name subject use.type) object use.arguments.entries) :
    InStep { (s.standIn subject use).2 with
      bodies := s.bodies ++ [(pairKey (subject, use.type), body)] } := by
  obtain ⟨hpairs, hfree⟩ := hi.fresh_of_key hkey
  have hnew : s.standIns.lookup (subject, use.type) = none := by
    rw [List.lookup_eq_none_iff]
    exact fun e he => bne_iff_ne.2 (hpairs e he).symm
  rw [standIn_new hnew hfree]
  constructor
  · exact nodup_keys_concat _ hi.pairs hpairs
  · exact nodup_keys_concat body hi.keys hkey
  · exact hi.held_insert hpairs
  · intro e he
    rcases List.mem_append.1 he with he | he
    · obtain ⟨p, hp, hpair⟩ := hi.made e he
      exact ⟨p, List.mem_append_left _ hp, hpair⟩
    · rw [List.mem_singleton.1 he]
      exact ⟨_, List.mem_append_right _ (List.mem_singleton_self _), rfl⟩
  · intro p hp hne
    rcases List.mem_append.1 hp with hp | hp
    · obtain ⟨subject', use', object', hmem, hp'⟩ := hi.filled p hp hne
      exact ⟨subject', use', object', List.mem_append_left _ hmem, hp'⟩
    · rw [List.mem_singleton.1 hp]
      exact ⟨subject, use, object, List.mem_append_right _ (List.mem_singleton_self _), hcontext, hb⟩
  · show (s.standIns ++ [_]).length = (s.hierarchy.standIns.insert _).classes.size
    have hsize := OrderedMap.size_insert (StandIn.ofUse subject use) hfree
    rw [List.length_append, List.length_singleton]
    exact (congrArg (· + 1) hi.classCount).trans hsize.symm
  · show (s.standIns ++ [_]).length = (s.bodies ++ [_]).countP _
    have hone : [(pairKey (subject, use.type), body)].countP (fun p => p.2.instructions ≠ []) = 1 := by
      simp [hb.instructions_ne_nil]
    rw [List.length_append, List.length_singleton, List.countP_append, hone, ← hi.bodyCount]
    rfl

/-! ### What requests keep -/

theorem answer (hi : InStep s) (hs : s.Consistent h) (ha : Answer s node r s') : InStep s' := by
  cases ha with
  | foreign hn => exact hi
  | kept hn hk => exact hi
  | unpinned hn hk hl => exact hi
  | idle hn hk hf => exact hi.addIdle (ne_of_kept?_eq_none hk) rfl
  | failed hn hk hf hb =>
    exact absurd hb (hs.bodyOf_ne_error (hs.declares_of_found hf).1 (Node.method_of_modeled? hn))
  | @filled subject sought use body hn hk hf hb =>
    obtain ⟨hd, rfl⟩ := hs.declares_of_found hf
    obtain ⟨object, _, _, hcontext, hfills⟩ := hs.fills_of_bodyOf hd hb
    rw [Node.context_of_modeled? hn] at hcontext
    rw [Node.modeled?_eq_some_iff.1 hn] at hk ⊢
    exact hi.addFilled (ne_of_kept?_eq_none hk) hcontext hfills

theorem run (hi : InStep s) (hs : s.Consistent h) (requests : List Node) :
    InStep (s.run requests) := by
  induction requests generalizing s with
  | nil => exact hi
  | cons n rest ih =>
    have ha := body_answer s n
    exact ih (hi.answer hs ha) (hs.answer ha)

theorem exists_use (hi : InStep s) (hs : s.Consistent h) {e : (ClassName × ClassName) × Class}
    (he : e ∈ s.standIns) :
    ∃ use, h.Declares e.1.1 use ∧ use.type = e.1.2 ∧ e.2 = StandIn.ofUse e.1.1 use := by
  have hc := (hi.held _ _).2 ⟨e, he, rfl, rfl⟩
  obtain ⟨subject, use, hd, heq⟩ := hs.registered _ _ hc
  have hname := ClassSpace.name_of_lookup? hc
  rw [heq] at hname
  obtain ⟨hsubject, htype⟩ := StandIn.name_inj (show StandIn.name subject use.type = _ from hname)
  exact ⟨use, hsubject ▸ hd, htype, hsubject ▸ heq⟩

end InStep

/-! ### All kinds of queries -/

/-- A query that may have a synthesizer make a body.  The other queries about a node do not look at
the synthesizer. -/
inductive Request where
  | body (n : Node)
  | statementCount (n : Node)
  | flow (n : Node)
  | defUse (n : Node)

def Request.about : Request → Node
  | .body n | .statementCount n | .flow n | .defUse n => n

def serve (s : Synthesizer) : Request → Synthesizer
  | .body n => (s.body n).2
  | .statementCount n => (s.statementCount n).2
  | .flow n => (s.flow n).2
  | .defUse n => (s.defUse n).2

def serveAll (s : Synthesizer) (requests : List Request) : Synthesizer := requests.foldl serve s

@[simp] theorem serve_eq_body (s : Synthesizer) (q : Request) : s.serve q = (s.body q.about).2 := by
  cases q <;> rfl

theorem serveAll_eq_run (requests : List Request) :
    ∀ s : Synthesizer, s.serveAll requests = s.run (requests.map Request.about) := by
  induction requests with
  | nil => exact fun _ => rfl
  | cons q rest ih =>
    intro s
    simpa [serveAll] using ih (s.serve q)

/-- The records of a synthesizer tell the same, and no two of its stand-ins are one class. -/
structure Matched (s : Synthesizer) : Prop extends InStep s where
  apart : ∀ e ∈ s.standIns, ∀ e' ∈ s.standIns, e.2 = e'.2 → e = e'
  stands : ∀ e ∈ s.standIns, s.hierarchy.StandsFor e.1.1 e.1.2 e.2

theorem InStep.matched (hi : InStep s) (hs : s.Consistent h) : Matched s where
  toInStep := hi
  apart e he e' he' heq := by
    obtain ⟨use, _, htype, hc⟩ := hi.exists_use hs he
    obtain ⟨use', _, htype', hc'⟩ := hi.exists_use hs he'
    have hname : StandIn.name e.1.1 use.type = StandIn.name e'.1.1 use'.type :=
      congrArg Class.name (hc.symm.trans (heq.trans hc'))
    obtain ⟨hsubject, htypes⟩ := StandIn.name_inj hname
    rw [htype, htype'] at htypes
    exact Prod.ext (Prod.ext hsubject htypes) heq
  stands e he := by
    obtain ⟨use, ⟨owner, howner, huse⟩, htype, hc⟩ := hi.exists_use hs he
    rw [hc, ← htype]
    refine ⟨rfl, rfl, rfl, ⟨owner, use, ?_, huse, StandIn.names_ofUse _ _⟩,
      StandIn.ascending_ofUse _ _⟩
    rw [Hierarchy.lookup?_eq_some_iff, hs.program]
    exact .inl howner

theorem matched_run (fresh : h.standIns = .empty) (requests : List Node) :
    Matched ((ofHierarchy h).run requests) :=
  have hs := consistent_ofHierarchy fresh
  ((inStep_ofHierarchy fresh).run hs requests).matched (hs.run requests)

end Synthesizer

end AnnotationGraph
