import AnnotationGraph.Lookup.Synthesizer

/-!
# Requests to a synthesizer

What a request for the body of a node can do is said once, by the ways in which it is answered; all
else about requests follows case by case.

* `Lookup.exact`, `Lookup.node`   lookups of one class on another, and their nodes;
* `Synthesizer.Answer`            the ways in which a request is answered;
* `Synthesizer.body_answer`       every request is answered in one of them;
* `Synthesizer.run`               requests made one after the other;
* `Synthesizer.exists_maker`      every body of a run was made at one of its requests.
-/

namespace AnnotationGraph

/-! ### Lookups on class objects -/

/-- The lookup of the annotation of one class on the object of another. -/
def Lookup.exact (subject sought : ClassName) : Lookup := ⟨.point subject, .point sought⟩

/-- The node of the calls that make a lookup on the object of a class. -/
def Lookup.node (l : Lookup) : Node := ⟨Operation.onClass.method, .lookup l⟩

theorem Lookup.exact_inj {subject sought subject' sought' : ClassName}
    (h : Lookup.exact subject sought = Lookup.exact subject' sought') :
    subject = subject' ∧ sought = sought' := by
  obtain ⟨h1, h2⟩ := Lookup.mk.inj h
  exact ⟨Abstraction.point.inj h1, Abstraction.point.inj h2⟩

theorem Node.modeled?_eq_some_iff {n : Node} {l : Lookup} : n.modeled? = some l ↔ n = l.node := by
  obtain ⟨method, context⟩ := n
  constructor
  · intro h
    unfold Node.modeled? at h
    cases hop : Operation.of? method with
    | none =>
      rw [hop] at h
      exact absurd h (by simp)
    | some op =>
      rw [hop] at h
      have hm : method = op.method := Operation.of?_eq_some_iff.1 hop
      cases op with
      | onClass =>
        have hc : context.lookup? = some l := h
        cases context with
        | everywhere => exact absurd hc (by simp [Context.lookup?])
        | lookup k =>
          have hk : k = l := Option.some.inj hc
          rw [hm, hk]
          rfl
      | onConstructor => exact absurd h (by simp [Operation.hasBody])
      | onMethod => exact absurd h (by simp [Operation.hasBody])
      | onField => exact absurd h (by simp [Operation.hasBody])
      | onParameter => exact absurd h (by simp [Operation.hasBody])
  · intro h
    rw [h]
    unfold Node.modeled? Lookup.node
    dsimp only
    rw [Operation.of?_method]
    rfl

@[simp] theorem Node.modeled?_node (l : Lookup) : l.node.modeled? = some l :=
  Node.modeled?_eq_some_iff.2 rfl

theorem Node.method_of_modeled? {n : Node} {l : Lookup} (hn : n.modeled? = some l) :
    n.method = Operation.onClass.method := by
  rw [Node.modeled?_eq_some_iff.1 hn]
  rfl

theorem Node.context_of_modeled? {n : Node} {l : Lookup} (hn : n.modeled? = some l) :
    n.context = .lookup l := by
  rw [Node.modeled?_eq_some_iff.1 hn]
  rfl

theorem Lookup.pinned_zero {l : Lookup} {name : ClassName} :
    l.pinned 0 = .ok name ↔ l.subject = .point name := by
  obtain ⟨subject, sought⟩ := l
  cases subject with
  | point s => exact ⟨fun h => congrArg _ (Except.ok.inj h), fun h => by cases h; rfl⟩
  | member m => exact ⟨fun h => (nomatch h), fun h => (nomatch h)⟩
  | cone c => exact ⟨fun h => (nomatch h), fun h => (nomatch h)⟩

theorem Lookup.pinned_one {l : Lookup} {name : ClassName} :
    l.pinned 1 = .ok name ↔ l.sought = .point name := by
  obtain ⟨subject, sought⟩ := l
  cases sought with
  | point s => exact ⟨fun h => congrArg _ (Except.ok.inj h), fun h => by cases h; rfl⟩
  | member m => exact ⟨fun h => (nomatch h), fun h => (nomatch h)⟩
  | cone c => exact ⟨fun h => (nomatch h), fun h => (nomatch h)⟩

namespace Synthesizer

variable {s s' : Synthesizer} {node : Node} {r : Except Fault (Nat × Body)}

/-! ### Kept bodies -/

theorem getElem?_of_kept? {key : String} {id : Nat} {body : Body}
    (h : s.kept? key = some (id, body)) : s.bodies[id]? = some (key, body) := by
  unfold kept? at h
  cases hid : s.bodies.findIdx? (·.1 = key) with
  | none =>
    rw [hid] at h
    exact absurd h (by simp)
  | some j =>
    rw [hid] at h
    obtain ⟨hj, hkey, _⟩ := List.findIdx?_eq_some_iff_getElem.1 hid
    have hget : s.bodies[j]? = some s.bodies[j] := List.getElem?_eq_getElem hj
    have h' : some (j, s.bodies[j].2) = some (id, body) := by
      rw [← h]
      show _ = s.bodies[j]?.bind fun p => some (j, p.2)
      rw [hget]
      rfl
    obtain ⟨hid', hbody⟩ := Prod.mk.inj (Option.some.inj h')
    have hk : s.bodies[j].1 = key := of_decide_eq_true hkey
    rw [← hid', hget, ← hk, ← hbody]

theorem ne_of_kept?_eq_none {key : String} (h : s.kept? key = none) :
    ∀ p ∈ s.bodies, p.1 ≠ key := by
  intro p hp hk
  unfold kept? at h
  cases hid : s.bodies.findIdx? (·.1 = key) with
  | none =>
    have hnot := List.findIdx?_eq_none_iff.1 hid p hp
    exact absurd hk (of_decide_eq_false hnot)
  | some j =>
    rw [hid] at h
    obtain ⟨hj, _, _⟩ := List.findIdx?_eq_some_iff_getElem.1 hid
    have h' : s.bodies[j]?.bind (fun p => some (j, p.2)) = none := h
    rw [List.getElem?_eq_getElem hj] at h'
    exact absurd h' (by simp)

theorem kept?_of_added {key : String} {body : Body} (h : s.kept? key = none)
    (hadd : s'.bodies = s.bodies ++ [(key, body)]) : s'.kept? key = some (s.bodies.length, body) := by
  have hnone : s.bodies.findIdx? (·.1 = key) = none :=
    List.findIdx?_eq_none_iff.2 fun p hp => decide_eq_false (ne_of_kept?_eq_none h p hp)
  have hlast : [(key, body)].findIdx? (·.1 = key) = some 0 := by simp
  unfold kept?
  rw [hadd, List.findIdx?_append, hnone, hlast]
  show ((s.bodies ++ [(key, body)])[0 + s.bodies.length]?.bind fun p =>
    some (0 + s.bodies.length, p.2)) = _
  rw [Nat.zero_add, List.getElem?_concat_length]
  rfl

theorem kept?_of_extended {key : String} {known : Nat × Body} (hp : s.bodies <+: s'.bodies)
    (hk : s.kept? key = some known) : s'.kept? key = some known := by
  obtain ⟨later, hlater⟩ := hp
  unfold kept? at hk ⊢
  rw [← hlater, List.findIdx?_append]
  cases hid : s.bodies.findIdx? (·.1 = key) with
  | none =>
    rw [hid] at hk
    exact nomatch hk
  | some j =>
    obtain ⟨hj, _, _⟩ := List.findIdx?_eq_some_iff_getElem.1 hid
    rw [hid] at hk
    rw [Option.some_or, ← hk]
    show ((s.bodies ++ later)[j]?.bind fun p => some (j, p.2)) = _
    rw [List.getElem?_append_left hj]
    rfl

/-! ### The body for an annotation that was found -/

@[simp] theorem standIn_bodies (s : Synthesizer) (subject : ClassName) (use : AnnotationUse) :
    (s.standIn subject use).2.bodies = s.bodies := by
  unfold standIn
  cases s.standIns.lookup (subject, use.type) <;> rfl

theorem bodyOf_snd (s : Synthesizer) (node : Node) (subject : ClassName) (use : AnnotationUse) :
    (s.bodyOf node subject use).2 = (s.standIn subject use).2 := rfl

theorem bodyOf_eq_ok {subject : ClassName} {use : AnnotationUse} {body : Body}
    (h : (s.bodyOf node subject use).1 = .ok body) :
    ∃ object instructions,
      (s.standIn subject use).2.hierarchy.firstFree node.method = .ok object ∧
      instructionsFor (s.standIn subject use).1 object use.arguments.entries = .ok instructions ∧
      body = ⟨node.method, node.context, instructions,
        .ofList (constantTexts (object + 1) use.arguments.entries)⟩ := by
  change ((s.standIn subject use).2.hierarchy.firstFree node.method >>= fun object =>
    instructionsFor (s.standIn subject use).1 object use.arguments.entries >>= fun instructions =>
      Except.ok (⟨node.method, node.context, instructions,
        .ofList (constantTexts (object + 1) use.arguments.entries)⟩ : Body)) = .ok body at h
  cases hfree : (s.standIn subject use).2.hierarchy.firstFree node.method with
  | error e =>
    rw [hfree] at h
    exact nomatch h
  | ok object =>
    rw [hfree] at h
    change (instructionsFor (s.standIn subject use).1 object use.arguments.entries >>= _) = _ at h
    cases hins : instructionsFor (s.standIn subject use).1 object use.arguments.entries with
    | error e =>
      rw [hins] at h
      exact nomatch h
    | ok instructions =>
      rw [hins] at h
      exact ⟨object, instructions, rfl, hins, (Except.ok.inj h).symm⟩

/-! ### Answers -/

/-- The ways in which a request for the body of a node is answered, and the synthesizer after it. -/
inductive Answer (s : Synthesizer) (node : Node) : Except Fault (Nat × Body) → Synthesizer → Prop
  | foreign (hn : node.modeled? = none) : Answer s node (.error (.foreign node)) s
  | kept {l : Lookup} {known : Nat × Body} (hn : node.modeled? = some l)
      (hk : s.kept? (node.bodyKey l) = some known) : Answer s node (.ok known) s
  | unpinned {l : Lookup} {e : Fault} (hn : node.modeled? = some l)
      (hk : s.kept? (node.bodyKey l) = none)
      (hl : ∀ subject sought, l ≠ .exact subject sought) : Answer s node (.error e) s
  | idle {subject sought : ClassName} {warnings : List Warning}
      (hn : node.modeled? = some (.exact subject sought))
      (hk : s.kept? (node.bodyKey (.exact subject sought)) = none)
      (hf : ∀ use, s.hierarchy.finding subject sought ≠ .found use) :
      Answer s node (.ok (s.bodies.length, .empty node.method node.context))
        { s with
          warnings
          bodies := s.bodies
            ++ [(node.bodyKey (.exact subject sought), .empty node.method node.context)] }
  | failed {subject sought : ClassName} {use : AnnotationUse} {e : Fault}
      (hn : node.modeled? = some (.exact subject sought))
      (hk : s.kept? (node.bodyKey (.exact subject sought)) = none)
      (hf : s.hierarchy.finding subject sought = .found use)
      (hb : (s.bodyOf node subject use).1 = .error e) :
      Answer s node (.error e) (s.standIn subject use).2
  | filled {subject sought : ClassName} {use : AnnotationUse} {body : Body}
      (hn : node.modeled? = some (.exact subject sought))
      (hk : s.kept? (node.bodyKey (.exact subject sought)) = none)
      (hf : s.hierarchy.finding subject sought = .found use)
      (hb : (s.bodyOf node subject use).1 = .ok body) :
      Answer s node (.ok (s.bodies.length, body))
        { (s.standIn subject use).2 with
          bodies := s.bodies ++ [(node.bodyKey (.exact subject sought), body)] }

theorem synthesize_unpinned {l : Lookup} (hl : ∀ subject sought, l ≠ .exact subject sought) :
    ∃ e, ∀ (s : Synthesizer) (node : Node), s.synthesize node l = (.error e, s) := by
  unfold synthesize
  cases h0 : l.pinned 0 with
  | error e => exact ⟨e, fun _ _ => rfl⟩
  | ok subject =>
    cases h1 : l.pinned 1 with
    | error e => exact ⟨e, fun _ _ => rfl⟩
    | ok sought =>
      have hs := Lookup.pinned_zero.1 h0
      have ha := Lookup.pinned_one.1 h1
      have he : l = .exact subject sought := by
        rw [Lookup.exact, ← hs, ← ha]
      exact absurd he (hl subject sought)

theorem synthesize_exact (s : Synthesizer) (node : Node) (subject sought : ClassName) :
    s.synthesize node (.exact subject sought) = match s.hierarchy.finding subject sought with
      | .subjectNotFound =>
        (.ok (.empty node.method node.context), s.warn (.subjectNotFound subject))
      | .soughtNotFound => (.ok (.empty node.method node.context), s.warn (.soughtNotFound sought))
      | .absent => (.ok (.empty node.method node.context), s)
      | .found use => s.bodyOf node subject use := rfl

theorem synthesize_idle (s : Synthesizer) (node : Node) {subject sought : ClassName}
    (hf : ∀ use, s.hierarchy.finding subject sought ≠ .found use) :
    ∃ warnings, s.synthesize node (.exact subject sought)
      = (.ok (.empty node.method node.context), { s with warnings }) := by
  rw [synthesize_exact]
  cases hfind : s.hierarchy.finding subject sought with
  | subjectNotFound => exact ⟨_, rfl⟩
  | soughtNotFound => exact ⟨_, rfl⟩
  | absent => exact ⟨s.warnings, rfl⟩
  | found use => exact absurd hfind (hf use)

theorem synthesize_found (s : Synthesizer) (node : Node) {subject sought : ClassName}
    {use : AnnotationUse} (hf : s.hierarchy.finding subject sought = .found use) :
    s.synthesize node (.exact subject sought) = s.bodyOf node subject use := by
  rw [synthesize_exact, hf]

theorem body_of_foreign (hn : node.modeled? = none) :
    s.body node = (.error (.foreign node), s) := by
  unfold body
  rw [hn]

theorem body_of_kept {l : Lookup} {known : Nat × Body} (hn : node.modeled? = some l)
    (hk : s.kept? (node.bodyKey l) = some known) : s.body node = (.ok known, s) := by
  unfold body
  rw [hn]
  dsimp only
  rw [hk]

theorem body_of_new {l : Lookup} (hn : node.modeled? = some l)
    (hk : s.kept? (node.bodyKey l) = none) :
    s.body node = match s.synthesize node l with
      | (.error e, s) => (.error e, s)
      | (.ok body, s) =>
        (.ok (s.bodies.length, body), { s with bodies := s.bodies ++ [(node.bodyKey l, body)] }) := by
  unfold body
  rw [hn]
  dsimp only
  rewrite [hk]
  rfl

theorem body_answer (s : Synthesizer) (node : Node) :
    Answer s node (s.body node).1 (s.body node).2 := by
  cases hn : node.modeled? with
  | none =>
    rw [body_of_foreign hn]
    exact .foreign hn
  | some l =>
    cases hk : s.kept? (node.bodyKey l) with
    | some known =>
      rw [body_of_kept hn hk]
      exact .kept hn hk
    | none =>
      rw [body_of_new hn hk]
      by_cases hl : ∃ subject sought, l = .exact subject sought
      · obtain ⟨subject, sought, rfl⟩ := hl
        by_cases hf : ∃ use, s.hierarchy.finding subject sought = .found use
        · obtain ⟨use, hf⟩ := hf
          rw [synthesize_found s node hf]
          have hsnd := bodyOf_snd s node subject use
          have hlen := standIn_bodies s subject use
          cases hb : s.bodyOf node subject use with
          | mk result after =>
            rw [hb] at hsnd
            have hafter : after = (s.standIn subject use).2 := hsnd
            subst hafter
            cases result with
            | error e => exact .failed hn hk hf (by rw [hb])
            | ok body =>
              show Answer s node (.ok ((s.standIn subject use).2.bodies.length, body))
                { (s.standIn subject use).2 with
                  bodies := (s.standIn subject use).2.bodies ++ [_] }
              rw [hlen]
              exact .filled hn hk hf (by rw [hb])
        · have hf' : ∀ use, s.hierarchy.finding subject sought ≠ .found use :=
            fun use h => hf ⟨use, h⟩
          obtain ⟨warnings, hsyn⟩ := synthesize_idle s node hf'
          rw [hsyn]
          exact .idle hn hk hf'
      · have hl' : ∀ subject sought, l ≠ .exact subject sought :=
          fun subject sought h => hl ⟨subject, sought, h⟩
        obtain ⟨e, hsyn⟩ := synthesize_unpinned hl'
        rw [hsyn]
        exact .unpinned hn hk hl'

/-! ### Runs of requests -/

theorem context_of_filled {subject : ClassName} {use : AnnotationUse} {body : Body}
    (h : (s.bodyOf node subject use).1 = .ok body) : body.context = node.context := by
  obtain ⟨object, instructions, _, _, rfl⟩ := bodyOf_eq_ok h
  rfl

/-- A request adds one body at most: a new one with the context of the node, which is a lookup of
one class on one class. -/
theorem Answer.bodies (h : Answer s node r s') :
    s'.bodies = s.bodies ∨ ∃ subject sought body,
      node.modeled? = some (.exact subject sought) ∧ r = .ok (s.bodies.length, body) ∧
      s'.bodies = s.bodies ++ [(node.bodyKey (.exact subject sought), body)] ∧
      body.context = node.context := by
  cases h with
  | foreign hn => exact .inl rfl
  | kept hn hk => exact .inl rfl
  | unpinned hn hk hl => exact .inl rfl
  | idle hn hk hf => exact .inr ⟨_, _, _, hn, rfl, rfl, rfl⟩
  | failed hn hk hf hb => exact .inl (standIn_bodies s _ _)
  | filled hn hk hf hb => exact .inr ⟨_, _, _, hn, rfl, rfl, context_of_filled hb⟩

theorem Answer.kept? {l : Lookup} {known : Nat × Body} (h : Answer s node (.ok known) s')
    (hl : node.modeled? = some l) : s'.kept? (node.bodyKey l) = some known := by
  cases h with
  | kept hn hk =>
    rw [← Option.some.inj (hn.symm.trans hl)]
    exact hk
  | idle hn hk hf =>
    rw [← Option.some.inj (hn.symm.trans hl)]
    exact kept?_of_added hk rfl
  | filled hn hk hf hb =>
    rw [← Option.some.inj (hn.symm.trans hl)]
    exact kept?_of_added hk rfl

theorem Answer.exists_lookup {known : Nat × Body} (h : Answer s node (.ok known) s') :
    ∃ l, node.modeled? = some l := by
  cases h with
  | kept hn hk => exact ⟨_, hn⟩
  | idle hn hk hf => exact ⟨_, hn⟩
  | filled hn hk hf hb => exact ⟨_, hn⟩

theorem Answer.stored {id : Nat} {body : Body} (h : Answer s node (.ok (id, body)) s') :
    ∃ l, node.modeled? = some l ∧ s'.bodies[id]? = some (node.bodyKey l, body) := by
  obtain ⟨l, hl⟩ := h.exists_lookup
  exact ⟨l, hl, getElem?_of_kept? (h.kept? hl)⟩

def run (s : Synthesizer) (requests : List Node) : Synthesizer :=
  requests.foldl (fun s n => (s.body n).2) s

@[simp] theorem run_nil (s : Synthesizer) : s.run [] = s := rfl
@[simp] theorem run_cons (s : Synthesizer) (n : Node) (requests : List Node) :
    s.run (n :: requests) = (s.body n).2.run requests := rfl
theorem run_append (s : Synthesizer) (a b : List Node) : s.run (a ++ b) = (s.run a).run b :=
  List.foldl_append

theorem prefix_bodies_body (s : Synthesizer) (n : Node) : s.bodies <+: (s.body n).2.bodies := by
  rcases (body_answer s n).bodies with hsame | ⟨_, _, _, _, _, hadd, _⟩
  · exact hsame ▸ List.prefix_refl _
  · exact hadd ▸ List.prefix_append _ _

theorem prefix_bodies_run (requests : List Node) :
    ∀ s : Synthesizer, s.bodies <+: (s.run requests).bodies := by
  induction requests with
  | nil => exact fun s => List.prefix_refl _
  | cons n rest ih => exact fun s => (prefix_bodies_body s n).trans (ih (s.body n).2)

/-- The body of a number that a run has come to was made at one of its requests. -/
theorem exists_maker {id : Nat} {key : String} {body : Body} (requests : List Node) :
    ∀ s : Synthesizer, s.bodies.length ≤ id → (s.run requests).bodies[id]? = some (key, body) →
      ∃ before maker after, requests = before ++ maker :: after ∧
        (s.run before).bodies.length = id ∧ ((s.run before).body maker).1 = .ok (id, body) ∧
        ∃ subject sought, maker.modeled? = some (.exact subject sought) ∧
          key = maker.bodyKey (.exact subject sought) ∧ body.context = maker.context := by
  induction requests with
  | nil =>
    intro s hid h
    rw [run_nil, List.getElem?_eq_none hid] at h
    exact absurd h (by simp)
  | cons n rest ih =>
    intro s hid h
    rw [run_cons] at h
    by_cases hlater : (s.body n).2.bodies.length ≤ id
    · obtain ⟨before, maker, after, hsplit, hmade⟩ := ih _ hlater h
      exact ⟨n :: before, maker, after, by rw [hsplit]; rfl, hmade⟩
    · rcases (body_answer s n).bodies with hsame | ⟨subject, sought, new, hn, hr, hadd, hctx⟩
      · rw [hsame] at hlater
        exact absurd hid hlater
      · have hlen : (s.body n).2.bodies.length = s.bodies.length + 1 := by
          rw [hadd, List.length_append, List.length_singleton]
        have hid' : s.bodies.length = id := by omega
        have hnow : (s.body n).2.bodies[id]?
            = some (n.bodyKey (.exact subject sought), new) := by
          rw [hadd, ← hid', List.getElem?_concat_length]
        obtain ⟨later, hlater⟩ := prefix_bodies_run rest (s.body n).2
        have hrun := h
        rw [← hlater, List.getElem?_append_left (by omega), hnow] at hrun
        obtain ⟨hkey, hbody⟩ := Prod.mk.inj (Option.some.inj hrun)
        refine ⟨[], n, rest, rfl, hid', ?_, subject, sought, hn, hkey.symm, ?_⟩
        · rw [run_nil, hr, hid', hbody]
        · rw [← hbody, hctx]

theorem maker_of_body {h : Hierarchy} {requests : List Node} {id : Nat} {body : Body}
    (hb : (((ofHierarchy h).run requests).body node).1 = .ok (id, body)) :
    ∃ before maker after, requests ++ [node] = before ++ maker :: after ∧
      ((ofHierarchy h).run before).bodies.length = id ∧
      (((ofHierarchy h).run before).body maker).1 = .ok (id, body) ∧
      ∃ l subject sought, node = Lookup.node l ∧ maker = (Lookup.exact subject sought).node ∧
        l.node.bodyKey l = (Lookup.exact subject sought).node.bodyKey (.exact subject sought) ∧
        body.context = .lookup (.exact subject sought) := by
  have ha := body_answer ((ofHierarchy h).run requests) node
  rw [hb] at ha
  obtain ⟨l, hn, hstored⟩ := ha.stored
  have hrun : ((ofHierarchy h).run (requests ++ [node])).bodies[id]?
      = some (node.bodyKey l, body) := by
    rw [run_append]
    exact hstored
  obtain ⟨before, maker, after, hsplit, hid, hmade, subject, sought, hmaker, hkey, hcontext⟩ :=
    exists_maker (requests ++ [node]) (ofHierarchy h) (Nat.zero_le id) hrun
  have hnode := Node.modeled?_eq_some_iff.1 hn
  have hmaker' := Node.modeled?_eq_some_iff.1 hmaker
  rw [hnode, hmaker'] at hkey
  rw [hmaker'] at hcontext
  exact ⟨before, maker, after, hsplit, hid, hmade, l, subject, sought, hnode, hmaker', hkey, hcontext⟩

end Synthesizer

end AnnotationGraph
