import AnnotationGraph.Proofs.Resolution
import AnnotationGraph.Proofs.Selector

/-!
# Which calls are lookups

The rule for annotation lookups gives a context to a call that is resolved, along the chain of super
classes, to a lookup method with contexts, if the object asked is a constant of the kind that goes
with the method and the annotation sought is a constant class.  It looks at the first two arguments of
the calls of lookup methods and at no others, so it may stand in any tree of rules.

* `Operation.lookup?`, `Hierarchy.asked?`   the lookup that a call makes, if it is known;
* `Operation.Pins`                          the constants that go with a lookup method;
* `Hierarchy.Targets`                       the calls that are resolved to a lookup method;
* `Rule.lookups_selects`                    what the rule answers, and where it looks;
* `Rule.heeds_lookups`                      it keeps to its slots;
* `Selector.masking_harmless`               what a tree of rules answers, and where it looks.
-/

namespace AnnotationGraph

/-- The lookup that a lookup method makes with known arguments. -/
def Operation.lookup? (op : Operation) (arguments : List ObjectKey) : Option Lookup := do
  let subject ← op.subject? (← arguments[0]?)
  let sought ← (← arguments[1]?).class?
  return ⟨subject, .point sought⟩

/-- The lookup that a call makes, if its callee has contexts of its own and its arguments are
known. -/
def Hierarchy.asked? (h : Hierarchy) (call : Call) : Option Lookup :=
  (h.operation? call).bind fun op => if op.hasContext then op.lookup? call.arguments else none

/-- A constant that goes with a lookup method, and the object that it stands for. -/
inductive Operation.Pins : Operation → ObjectKey → Abstraction → Prop
  | onClass (name : ClassName) : Pins .onClass (.known (.classObject name)) (.point name)
  | onConstructor (m : MethodRef) : Pins .onConstructor (.known (.constructor m)) (.member m)
  | onMethod (m : MethodRef) : Pins .onMethod (.known (.method m)) (.member m)

/-- A call is resolved to a lookup method: the nearest class that has the method called is that of the
lookup method. -/
def Hierarchy.Targets (h : Hierarchy) (call : Call) (op : Operation) : Prop :=
  ∃ i c, h.Nearest call.target i c ∧ ⟨c.name, call.name, call.descriptor⟩ = op.method

/-! ### Constants -/

namespace ObjectKey

variable {key : ObjectKey} {m : MethodRef}

theorem class?_eq_some_iff {name : ClassName} :
    key.class? = some name ↔ key = .known (.classObject name) := by
  unfold class?
  split <;> simp_all

theorem constructor?_eq_some_iff : key.constructor? = some m ↔ key = .known (.constructor m) := by
  unfold constructor?
  split <;> simp_all

theorem method?_eq_some_iff : key.method? = some m ↔ key = .known (.method m) := by
  unfold method?
  split <;> simp_all

end ObjectKey

namespace Operation

variable {op : Operation} {key : ObjectKey} {subject : Abstraction} {arguments : List ObjectKey}
  {l : Lookup}

theorem subject?_eq_some_iff : op.subject? key = some subject ↔ op.Pins key subject := by
  constructor
  · intro h
    cases op with
    | onClass =>
      obtain ⟨name, hname, rfl⟩ : ∃ name, key.class? = some name ∧ .point name = subject :=
        Option.map_eq_some_iff.1 h
      rw [ObjectKey.class?_eq_some_iff.1 hname]
      exact .onClass name
    | onConstructor =>
      obtain ⟨m, hm, rfl⟩ : ∃ m, key.constructor? = some m ∧ .member m = subject :=
        Option.map_eq_some_iff.1 h
      rw [ObjectKey.constructor?_eq_some_iff.1 hm]
      exact .onConstructor m
    | onMethod =>
      obtain ⟨m, hm, rfl⟩ : ∃ m, key.method? = some m ∧ .member m = subject :=
        Option.map_eq_some_iff.1 h
      rw [ObjectKey.method?_eq_some_iff.1 hm]
      exact .onMethod m
    | onField => exact nomatch h
    | onParameter => exact nomatch h
  · intro h
    cases h <;> rfl

theorem Pins.hasContext (h : op.Pins key subject) : op.hasContext = true := by
  cases h <;> rfl

theorem lookup?_eq_some_iff : op.lookup? arguments = some l ↔ ∃ key subject sought,
    arguments[0]? = some key ∧ op.Pins key subject ∧
      arguments[1]? = some (.known (.classObject sought)) ∧ l = ⟨subject, .point sought⟩ := by
  unfold lookup?
  constructor
  · intro h
    obtain ⟨key, h0, h⟩ := Option.bind_eq_some_iff.1 h
    obtain ⟨subject, hs, h⟩ := Option.bind_eq_some_iff.1 h
    obtain ⟨key', h1, h⟩ := Option.bind_eq_some_iff.1 h
    obtain ⟨sought, hk, h⟩ := Option.bind_eq_some_iff.1 h
    rw [ObjectKey.class?_eq_some_iff.1 hk] at h1
    exact ⟨key, subject, sought, h0, subject?_eq_some_iff.1 hs, h1, (Option.some.inj h).symm⟩
  · rintro ⟨key, subject, sought, h0, hpins, h1, rfl⟩
    rw [h0, h1]
    show (op.subject? key >>= fun _ => _) = _
    rw [subject?_eq_some_iff.2 hpins]
    rfl

theorem lookup?_congr {a b : List ObjectKey} (h0 : a[0]? = b[0]?)
    (h1 : a[1]? = b[1]?) : op.lookup? a = op.lookup? b := by
  unfold lookup?
  rw [h0, h1]

end Operation

/-! ### The rule for lookups -/

theorem Hierarchy.operation?_eq_some_iff {h : Hierarchy} {call : Call} {op : Operation} :
    h.operation? call = some op ↔ h.Targets call op := by
  unfold operation?
  constructor
  · intro hop
    obtain ⟨m, hm, hof⟩ := Option.bind_eq_some_iff.1 hop
    obtain ⟨i, c, hc, rfl⟩ := resolve?_eq_some_iff.1 hm
    exact ⟨i, c, hc, Operation.of?_eq_some_iff.1 hof⟩
  · rintro ⟨i, c, hc, hop⟩
    exact Option.bind_eq_some_iff.2
      ⟨_, resolve?_eq_some_iff.2 ⟨i, c, hc, rfl⟩, Operation.of?_eq_some_iff.2 hop⟩

/-- A call on a class that declares the method itself is resolved to this method, so it is resolved to a
lookup method only if it names it. -/
theorem Hierarchy.targets_iff_of_declared {h : Hierarchy} {call : Call} {c : Class} {op : Operation}
    (hc : h.lookup? call.owner = some c) (hm : c.HasMethod call.target) :
    h.Targets call op ↔ call.target = op.method := by
  have hn : h.Nearest call.target 0 c := ⟨hc, hm, fun j hj => absurd hj (Nat.not_lt_zero j)⟩
  have hname : c.name = call.owner := name_of_lookup? hc
  constructor
  · rintro ⟨i, d, hd, hop⟩
    rwa [← hn.unique hd, hname] at hop
  · intro hop
    exact ⟨0, c, hn, by rwa [hname]⟩

namespace Rule

theorem context?_lookups (h : Hierarchy) (q : Query) :
    lookups.context? h q = ((h.operation? q.call).bind fun op =>
      if op.hasContext then op.lookup? q.arguments else none).map .lookup := by
  unfold lookups Operation.lookup?
  dsimp only
  cases h.operation? q.call with
  | none => rfl
  | some op =>
    cases hc : op.hasContext with
    | false => simp [hc]
    | true =>
      cases q.arguments[0]? with
      | none => simp
      | some key =>
        cases q.arguments[1]? with
        | none => cases op.subject? key <;> simp
        | some annotation =>
          cases hk : annotation.class? <;> cases hs : op.subject? key <;> simp [hc, hk, hs]

variable {h : Hierarchy} {q : Query} {caller : Node} {call : Call}

theorem context?_lookups_eq_some_iff {context : Context} :
    lookups.context? h q = some context ↔ ∃ op key subject sought, h.Targets q.call op ∧
      q.arguments[0]? = some key ∧ op.Pins key subject ∧
      q.arguments[1]? = some (.known (.classObject sought)) ∧
      context = .lookup ⟨subject, .point sought⟩ := by
  rw [context?_lookups]
  constructor
  · intro hc
    obtain ⟨l, hl, rfl⟩ := Option.map_eq_some_iff.1 hc
    obtain ⟨op, hop, hl⟩ := Option.bind_eq_some_iff.1 hl
    split at hl
    next =>
      obtain ⟨key, subject, sought, h0, hpins, h1, rfl⟩ := Operation.lookup?_eq_some_iff.1 hl
      exact ⟨op, key, subject, sought, Hierarchy.operation?_eq_some_iff.1 hop, h0, hpins, h1, rfl⟩
    next => exact nomatch hl
  · rintro ⟨op, key, subject, sought, hop, h0, hpins, h1, rfl⟩
    rw [Hierarchy.operation?_eq_some_iff.2 hop, Option.bind_some, if_pos hpins.hasContext,
      Operation.lookup?_eq_some_iff.2 ⟨key, subject, sought, h0, hpins, h1, rfl⟩]
    rfl

theorem slots_lookups_of_targets {op : Operation} (hop : h.Targets call op) :
    lookups.slots h caller call = lookupSlots := by
  show (if (h.operation? call).isSome then lookupSlots else .empty) = _
  rw [Hierarchy.operation?_eq_some_iff.2 hop]
  rfl

theorem slots_lookups_of_not_targets (hop : ∀ op, ¬ h.Targets call op) :
    lookups.slots h caller call = .empty := by
  show (if (h.operation? call).isSome then lookupSlots else .empty) = _
  cases hsome : h.operation? call with
  | none => rfl
  | some op => exact absurd (Hierarchy.operation?_eq_some_iff.1 hsome) (hop op)

/-- The rule keeps to its slots: a call of no lookup method has none and gets no context, and the others
have the first two, which tell the lookup. -/
theorem heeds_lookups (h : Hierarchy) (caller : Node) (call : Call) (callee : MethodRef) :
    lookups.Heeds h caller call callee := by
  intro a b _ hab
  show lookups.context? h _ = lookups.context? h _
  rw [context?_lookups, context?_lookups]
  cases hop : h.operation? call with
  | none => rfl
  | some op =>
    rw [slots_lookups_of_targets (Hierarchy.operation?_eq_some_iff.1 hop)] at hab
    have h0 : a[0]? = b[0]? := hab 0 (by decide)
    have h1 : a[1]? = b[1]? := hab 1 (by decide)
    simp only [Option.bind_some, Operation.lookup?_congr h0 h1]

/-- **A call gets a context exactly if it is resolved to a lookup method and its first two arguments
are constants of the right kinds.**  The context names the two constants.  The rule looks at two slots
if the call is resolved to one of the five lookup methods, and at none otherwise.  Hence a call on a
class that declares the method itself is only the lookup that it names, and is left alone if it names
none of the five, while a call on a class that inherits one of them is that lookup. -/
theorem lookups_selects (h : Hierarchy) (q : Query) :
    (∀ op, h.operation? q.call = some op ↔ h.Targets q.call op) ∧
    (∀ context, lookups.context? h q = some context ↔ ∃ op key subject sought,
      h.Targets q.call op ∧ q.arguments[0]? = some key ∧ op.Pins key subject ∧
      q.arguments[1]? = some (.known (.classObject sought)) ∧
      context = .lookup ⟨subject, .point sought⟩) ∧
    ((lookups.slots h q.caller q.call).keys = [0, 1] ↔ ∃ op, h.Targets q.call op) ∧
    ((lookups.slots h q.caller q.call).keys = [] ↔ ¬ ∃ op, h.Targets q.call op) ∧
    (∀ c, h.lookup? q.call.owner = some c → c.HasMethod q.call.target →
      (∀ op, h.operation? q.call = some op ↔ q.call.target = op.method) ∧
      ((∀ op : Operation, q.call.target ≠ op.method) →
        (lookups.slots h q.caller q.call).keys = [] ∧ lookups.context? h q = none)) ∧
    ∀ i c (op : Operation), q.call.name = Operation.methodName →
      q.call.descriptor = Operation.descriptor → h.Nearest q.call.target i c → c.name = op.owner →
      h.operation? q.call = some op ∧ (lookups.slots h q.caller q.call).keys = [0, 1] := by
  have hslots : ∀ op, h.Targets q.call op → (lookups.slots h q.caller q.call).keys = [0, 1] := by
    intro op hop
    rw [slots_lookups_of_targets hop]
    decide
  have hnone : (¬ ∃ op, h.Targets q.call op) → (lookups.slots h q.caller q.call).keys = [] := by
    intro hnot
    rw [slots_lookups_of_not_targets (not_exists.1 hnot)]
    rfl
  refine ⟨fun _ => Hierarchy.operation?_eq_some_iff, fun _ => context?_lookups_eq_some_iff,
    ⟨?_, fun ⟨op, hop⟩ => hslots op hop⟩, ⟨?_, hnone⟩, ?_, ?_⟩
  · intro hkeys
    by_contra hnot
    exact nomatch hkeys.symm.trans (hnone hnot)
  · rintro hkeys ⟨op, hop⟩
    exact nomatch hkeys.symm.trans (hslots op hop)
  · intro c hc hm
    refine ⟨fun op => ?_, fun hother => ?_⟩
    · rw [Hierarchy.operation?_eq_some_iff, Hierarchy.targets_iff_of_declared hc hm]
    · have hnot : ¬ ∃ op, h.Targets q.call op := fun ⟨op, hop⟩ =>
        hother op ((Hierarchy.targets_iff_of_declared hc hm).1 hop)
      refine ⟨hnone hnot, ?_⟩
      cases hcontext : lookups.context? h q with
      | none => rfl
      | some context =>
        obtain ⟨op, _, _, _, hop, _⟩ := context?_lookups_eq_some_iff.1 hcontext
        exact absurd ⟨op, hop⟩ hnot
  · intro i c op hname hdescriptor hn howner
    have hop : h.Targets q.call op := by
      refine ⟨i, c, hn, ?_⟩
      rw [howner, hname, hdescriptor]
      rfl
    exact ⟨Hierarchy.operation?_eq_some_iff.2 hop, hslots op hop⟩

/-- A class that inherits the lookup method on class objects, and one that declares its own. -/
def heirs : Hierarchy := .ofClasses
  [ ⟨"p/Heir", some classClass, [], [], [], [], true⟩,
    ⟨"p/Own", some classClass, [], [], [],
      [⟨Operation.methodName, Operation.descriptor, ⟨true, false, false⟩, []⟩], true⟩ ]

def labelOfCard (owner : ClassName) : Query where
  caller := ⟨⟨"p/App", "main", "()V"⟩, .everywhere⟩
  call := ⟨owner, Operation.methodName, Operation.descriptor, .virtual, 1, []⟩
  callee := ⟨owner, Operation.methodName, Operation.descriptor⟩
  arguments := [.known (.classObject "p/Card"), .known (.classObject "p/Label")]

theorem lookups_selects_heirs :
    (∃ i c, heirs.Nearest (labelOfCard "p/Heir").call.target i c ∧
      c.name = Operation.onClass.owner) ∧
    heirs.operation? (labelOfCard "p/Heir").call = some .onClass ∧
    (∃ c, heirs.lookup? "p/Own" = some c ∧ c.HasMethod (labelOfCard "p/Own").call.target ∧
      ∀ op : Operation, (labelOfCard "p/Own").call.target ≠ op.method) ∧
    lookups.context? heirs (labelOfCard "p/Own") = none := by
  have hheir : heirs.resolve? (labelOfCard "p/Heir").call.target = some Operation.onClass.method := by
    decide +kernel
  have hown : heirs.resolve? (labelOfCard "p/Own").call.target
      = some (labelOfCard "p/Own").call.target := by decide +kernel
  obtain ⟨i, c, hn, hc⟩ := Hierarchy.resolve?_eq_some_iff.1 hheir
  obtain ⟨j, d, hd, hdname⟩ := Hierarchy.resolve?_eq_some_iff.1 hown
  have howner : c.name = Operation.onClass.owner := (MethodRef.mk.inj hc).1
  have hdowner : d.name = "p/Own" := (MethodRef.mk.inj hdname).1
  have hfound : heirs.lookup? "p/Own" = some d := hdowner ▸ Hierarchy.lookup?_of_ancestor? hd.reached
  have hother : ∀ op : Operation, (labelOfCard "p/Own").call.target ≠ op.method := by
    intro op
    cases op <;> decide
  refine ⟨⟨i, c, hn, howner⟩, ?_, ⟨d, hfound, hd.has, hother⟩, ?_⟩
  · exact ((lookups_selects heirs (labelOfCard "p/Heir")).2.2.2.2.2 i c .onClass rfl rfl hn howner).1
  · exact (((lookups_selects heirs (labelOfCard "p/Own")).2.2.2.2.1 d hfound hd.has).2 hother).2

end Rule

/-! ### Trees with the rule -/

/-- **A tree of rules answers as the first of them that does not decline, and leaving out the arguments
at which none of them looks changes nothing.**  It looks at the slots at which a rule looks.  If for a
call each rule keeps to its slots then so does the tree, and following the call leads where it would
lead with all arguments.  The rule for lookups and the one for all other calls keep to their slots. -/
theorem Selector.masking_harmless (s : Selector) (h : Hierarchy) :
    (∀ q context, s.context? h q = some context ↔ ∃ before r after,
      s.rules = before ++ r :: after ∧ (∀ d ∈ before, d.context? h q = none) ∧
      r.context? h q = some context) ∧
    (∀ q, s.context? h q = none ↔ ∀ r ∈ s.rules, r.context? h q = none) ∧
    (∀ caller call i, i ∈ (s.slots h caller call).keys ↔
      ∃ r ∈ s.rules, i ∈ (r.slots h caller call).keys) ∧
    (∀ caller call callee, (∀ r ∈ s.rules, r.Heeds h caller call callee) →
      s.Heeds h caller call callee ∧ ∀ arguments,
        s.context? h ((⟨caller, call, callee, arguments⟩ : Query).masked (s.slots h caller call))
          = s.context? h ⟨caller, call, callee, arguments⟩) ∧
    (∀ (x : Exploration) caller node call, x.selector = s → x.hierarchy = h →
      x.graph.node? caller = some node →
      (∀ callee ∈ h.resolve? call.target, ∀ r ∈ s.rules, r.Heeds h node call callee) →
      x.follow caller call = .ok (match s.target? h node call with
        | none => (none, x)
        | some n => (some (x.graph.addNode n).1, x.link caller call.offset n))) ∧
    ∀ caller call callee, Rule.lookups.Heeds h caller call callee ∧
      Rule.everywhere.Heeds h caller call callee := by
  refine ⟨fun _ _ => context?_eq_some_iff, fun _ => context?_eq_none_iff, fun _ _ _ => mem_slots_iff,
    ?_, ?_, ?_⟩
  · intro caller call callee hs
    have htree : s.Heeds h caller call callee := heeds_of_rules hs
    exact ⟨htree, fun arguments => Heeds.context?_masked (q := ⟨caller, call, callee, arguments⟩) htree⟩
  · rintro x caller node call rfl rfl hn hs
    exact Exploration.follow_of_heeds hn fun callee hc => heeds_of_rules (hs callee hc)
  · intro caller call callee
    exact ⟨Rule.heeds_lookups h caller call callee, Rule.heeds_fixed _ _ h caller call callee⟩

/-- A rule that declines, though it looks at the third argument, before the standard ones. -/
def curious : Selector :=
  .orElse (.orElse (.rule (.fixed none (.ofList [2]))) (.rule .lookups)) (.rule .everywhere)

def labelCall : Call where
  owner := classClass
  name := Operation.methodName
  descriptor := Operation.descriptor
  dispatch := .virtual
  offset := 7
  arguments := [.known (.classObject "p/Card"), .known (.classObject "p/Label"), .unknown,
    .known (.classObject "p/Spare")]

def asking : Node := ⟨⟨"p/App", "main", "()V"⟩, .everywhere⟩

def entered : Exploration := ((Exploration.start curious (.ofClasses [])).enter asking.method).2

theorem Selector.masking_harmless_curious :
    (∀ callee, ∀ r ∈ curious.rules, r.Heeds (.ofClasses []) asking labelCall callee) ∧
    curious.Heeds (.ofClasses []) asking labelCall Operation.onClass.method ∧
    entered.graph.node? 0 = some asking ∧
    entered.follow 0 labelCall = .ok (some 1, entered.link 0 7
      ⟨Operation.onClass.method, .lookup ⟨.point "p/Card", .point "p/Label"⟩⟩) := by
  have hrules : ∀ callee, ∀ r ∈ curious.rules, r.Heeds (.ofClasses []) asking labelCall callee := by
    intro callee r hr
    have hr : r = .fixed none (.ofList [2]) ∨ r = .lookups ∨ r = .everywhere := by
      simpa [curious, rules] using hr
    rcases hr with rfl | rfl | rfl
    · exact Rule.heeds_fixed _ _ _ _ _ _
    · exact Rule.heeds_lookups _ _ _ _
    · exact Rule.heeds_fixed _ _ _ _ _ _
  have hnode : entered.graph.node? 0 = some asking := by decide +kernel
  have htarget : curious.target? (.ofClasses []) asking labelCall = some
      ⟨Operation.onClass.method, .lookup ⟨.point "p/Card", .point "p/Label"⟩⟩ := by decide +kernel
  have hfollow := (masking_harmless curious (.ofClasses [])).2.2.2.2.1 entered 0 asking labelCall rfl rfl
    hnode fun callee _ => hrules callee
  rw [htarget] at hfollow
  exact ⟨hrules, ((masking_harmless curious (.ofClasses [])).2.2.2.1 asking labelCall _ (hrules _)).1,
    hnode, hfollow⟩

end AnnotationGraph
