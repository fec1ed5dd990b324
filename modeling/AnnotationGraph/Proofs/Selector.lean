import AnnotationGraph.Graph.Exploration
import AnnotationGraph.Proofs.Maps

/-!
# Rules in a tree

A tree of rules answers as the first of its rules that does not decline, and looks at the slots at
which one of them looks.  If each rule keeps to the arguments in its own slots, then so does the tree,
and it chooses the same context whether the other arguments are known or left out.

* `DependsOn`                      a choice that keeps to the arguments in some slots;
* `Rule.Heeds`, `Selector.Heeds`   a rule, or a tree of rules, that keeps to those in its own;
* `Selector.context?_eq_some_iff`  the first rule that does not decline;
* `Selector.mem_slots_iff`         the slots of a tree;
* `Selector.heeds_of_rules`        a tree of rules that keep to their slots;
* `Exploration.follow_of_heeds`    following a call as if no argument were left out.
-/

namespace AnnotationGraph

/-- What is chosen depends on the number of the arguments and on those in some slots alone. -/
def DependsOn (slots : OrderedSet Nat) (choose : List ObjectKey → Option Context) : Prop :=
  ∀ a b : List ObjectKey, a.length = b.length → (∀ i ∈ slots.keys, a[i]? = b[i]?) →
    choose a = choose b

/-- Of the arguments of a call a rule looks at those in its slots alone. -/
def Rule.Heeds (r : Rule) (h : Hierarchy) (caller : Node) (call : Call) (callee : MethodRef) : Prop :=
  DependsOn (r.slots h caller call) fun arguments => r.context? h ⟨caller, call, callee, arguments⟩

def Selector.Heeds (s : Selector) (h : Hierarchy) (caller : Node) (call : Call) (callee : MethodRef) :
    Prop :=
  DependsOn (s.slots h caller call) fun arguments => s.context? h ⟨caller, call, callee, arguments⟩

theorem Rule.heeds_fixed (context : Option Context) (slots : OrderedSet Nat) (h : Hierarchy)
    (caller : Node) (call : Call) (callee : MethodRef) :
    (fixed context slots).Heeds h caller call callee :=
  fun _ _ _ _ => rfl

namespace Selector

variable {s : Selector} {h : Hierarchy} {q : Query} {caller : Node} {call : Call}

/-! ### The rules of a tree -/

theorem context?_eq_findSome? (s : Selector) (h : Hierarchy) (q : Query) :
    s.context? h q = s.rules.findSome? fun r => r.context? h q := by
  induction s with
  | rule r =>
    rw [rules, List.findSome?_singleton]
    rfl
  | orElse first second ih₁ ih₂ =>
    rw [rules, List.findSome?_append, ← ih₁, ← ih₂, context?, Option.orElse_eq_orElse,
      Option.orElse_eq_or]

theorem context?_eq_some_iff {context : Context} : s.context? h q = some context ↔
    ∃ before r after, s.rules = before ++ r :: after ∧ (∀ d ∈ before, d.context? h q = none) ∧
      r.context? h q = some context := by
  rw [context?_eq_findSome?, List.findSome?_eq_some_iff]
  constructor
  · rintro ⟨before, r, after, hrules, hr, hbefore⟩
    exact ⟨before, r, after, hrules, hbefore, hr⟩
  · rintro ⟨before, r, after, hrules, hbefore, hr⟩
    exact ⟨before, r, after, hrules, hr, hbefore⟩

theorem context?_eq_none_iff : s.context? h q = none ↔ ∀ r ∈ s.rules, r.context? h q = none := by
  rw [context?_eq_findSome?, List.findSome?_eq_none_iff]

theorem mem_slots_iff {i : Nat} : i ∈ (s.slots h caller call).keys ↔
    ∃ r ∈ s.rules, i ∈ (r.slots h caller call).keys := by
  induction s with
  | rule r =>
    simp only [rules, List.mem_singleton, exists_eq_left]
    rfl
  | orElse first second ih₁ ih₂ =>
    rw [slots, OrderedSet.mem_keys_union, ih₁, ih₂]
    simp only [rules, List.mem_append, or_and_right, exists_or]

theorem heeds_of_rules {callee : MethodRef} (hs : ∀ r ∈ s.rules, r.Heeds h caller call callee) :
    s.Heeds h caller call callee := by
  induction s with
  | rule r => exact hs r (List.mem_singleton.2 rfl)
  | orElse first second ih₁ ih₂ =>
    intro a b hlength hab
    have hfirst : first.context? h ⟨caller, call, callee, a⟩ = first.context? h ⟨caller, call, callee, b⟩ :=
      ih₁ (fun r hr => hs r (List.mem_append_left _ hr)) a b hlength
        fun i hi => hab i (OrderedSet.mem_keys_union.2 (.inl hi))
    have hsecond : second.context? h ⟨caller, call, callee, a⟩ = second.context? h ⟨caller, call, callee, b⟩ :=
      ih₂ (fun r hr => hs r (List.mem_append_right _ hr)) a b hlength
        fun i hi => hab i (OrderedSet.mem_keys_union.2 (.inr hi))
    show (first.context? h _ <|> second.context? h _) = (first.context? h _ <|> second.context? h _)
    rw [hfirst, hsecond]

end Selector

/-! ### Arguments that are left out -/

theorem Query.masked_getElem? (q : Query) {slots : OrderedSet Nat} {i : Nat} (hi : i ∈ slots.keys) :
    (q.masked slots).arguments[i]? = q.arguments[i]? := by
  show (q.arguments.mapIdx _)[i]? = _
  rw [List.getElem?_mapIdx]
  cases q.arguments[i]? with
  | none => rfl
  | some key =>
    show some (if slots.contains i then key else .unknown) = some key
    rw [if_pos (OrderedSet.contains_iff.2 hi)]

theorem Selector.Heeds.context?_masked {s : Selector} {h : Hierarchy} {q : Query}
    (hs : s.Heeds h q.caller q.call q.callee) :
    s.context? h (q.masked (s.slots h q.caller q.call)) = s.context? h q := by
  refine hs _ q.arguments ?_ fun i hi => q.masked_getElem? hi
  show (q.arguments.mapIdx _).length = _
  rw [List.length_mapIdx]

/-! ### Following a call -/

def Selector.target? (s : Selector) (h : Hierarchy) (caller : Node) (call : Call) : Option Node :=
  (h.resolve? call.target).map fun callee =>
    ⟨callee, (s.context? h ⟨caller, call, callee, call.arguments⟩).getD .everywhere⟩

def Exploration.link (x : Exploration) (caller : Nat) (offset : UInt32) (n : Node) : Exploration :=
  { x with graph := (x.graph.addNode n).2.addEdge ⟨caller, offset, (x.graph.addNode n).1⟩ }

/-- Following a call of a known caller adds the node to which it leads and an edge to it, and does
nothing if the call does not resolve. -/
theorem Exploration.follow_of_heeds {x : Exploration} {caller : Nat} {node : Node} {call : Call}
    (hn : x.graph.node? caller = some node)
    (hs : ∀ callee ∈ x.hierarchy.resolve? call.target,
      x.selector.Heeds x.hierarchy node call callee) :
    x.follow caller call = .ok (match x.selector.target? x.hierarchy node call with
      | none => (none, x)
      | some n => (some (x.graph.addNode n).1, x.link caller call.offset n)) := by
  unfold follow query? Selector.target?
  rw [hn]
  cases hr : x.hierarchy.resolve? call.target with
  | none => rfl
  | some callee =>
    have hcontext := Selector.Heeds.context?_masked (q := ⟨node, call, callee, call.arguments⟩)
      (hs callee hr)
    show Except.ok (some (x.graph.addNode ⟨callee, (x.selector.context? x.hierarchy _).getD _⟩).1,
      x.link caller call.offset ⟨callee, (x.selector.context? x.hierarchy _).getD _⟩) = _
    rw [hcontext]
    rfl

end AnnotationGraph
