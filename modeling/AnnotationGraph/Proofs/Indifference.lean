import AnnotationGraph.Proofs.Lockstep

/-!
# What an analysis does not look at

Two programs may differ in the interfaces and fields of their classes, in the kinds of their calls and
in the arguments that no lookup looks at.  The walks over both go step by step together and come to the
same graph, and hierarchies that are alike answer all lookups alike, so the reports are the same, too.

* `Class.Alike`, `Hierarchy.Alike`   what may differ;
* `Hierarchy.Alike.resolve?`         references mean the same methods;
* `Hierarchy.Alike.target?`          calls lead to the same nodes;
* `Hierarchy.Alike.answering`        lookups are answered alike;
* `Analysis.alike_explored`          the walks come to the same graph;
* `Analysis.run_congr`               the analyses are equal.
-/

namespace AnnotationGraph

/-! ### What may differ -/

section
variable (looked : MethodRef → Prop)

/-- Calls of one method at one offset.  If the method is one whose arguments are looked at, they agree
in the object and in the annotation sought. -/
structure Call.Alike (a b : Call) : Prop where
  target : a.target = b.target
  offset : a.offset = b.offset
  subject : looked a.target → a.arguments[0]? = b.arguments[0]?
  sought : looked a.target → a.arguments[1]? = b.arguments[1]?

structure Method.Alike (a b : Method) : Prop where
  name : a.name = b.name
  descriptor : a.descriptor = b.descriptor
  access : a.access = b.access
  calls : List.Forall₂ (Call.Alike looked) a.calls b.calls

/-- Classes that differ in their interfaces and fields alone, and in calls that are alike. -/
structure Class.Alike (a b : Class) : Prop where
  name : a.name = b.name
  superName : a.superName = b.superName
  annotations : a.annotations = b.annotations
  methods : List.Forall₂ (Method.Alike looked) a.methods b.methods
  analyzed : a.analyzed = b.analyzed

def ClassSpace.Alike (s t : ClassSpace) : Prop :=
  List.Forall₂ (fun e f => e.1 = f.1 ∧ Class.Alike looked e.2 f.2) s.classes.entries
    t.classes.entries

structure Hierarchy.Alike (h k : Hierarchy) : Prop where
  program : ClassSpace.Alike looked h.program k.program
  standIns : h.standIns = k.standIns

end

variable {looked : MethodRef → Prop}

theorem Class.Alike.refl (c : Class) : Class.Alike looked c c where
  name := rfl
  superName := rfl
  annotations := rfl
  methods := List.forall₂_same.2 fun _ _ =>
    ⟨rfl, rfl, rfl, List.forall₂_same.2 fun _ _ => ⟨rfl, rfl, fun _ => rfl, fun _ => rfl⟩⟩
  analyzed := rfl

/-! ### Looking up -/

theorem rel_cases {α β : Type} {R : α → β → Prop} {a : Option α} {b : Option β}
    (h : Option.Rel R a b) : a = none ∧ b = none ∨ ∃ x y, a = some x ∧ b = some y ∧ R x y := by
  cases h with
  | none => exact .inl ⟨rfl, rfl⟩
  | some hxy => exact .inr ⟨_, _, rfl, rfl, hxy⟩

theorem foldl_alike {σ τ α β : Type} {S : σ → τ → Prop} {R : α → β → Prop} {f : σ → α → σ}
    {g : τ → β → τ} (hfg : ∀ s t a b, S s t → R a b → S (f s a) (g t b)) {as : List α} {bs : List β}
    (hab : List.Forall₂ R as bs) : ∀ {s : σ} {t : τ}, S s t → S (as.foldl f s) (bs.foldl g t) := by
  induction hab with
  | nil => exact fun hst => hst
  | cons hab _ ih => exact fun hst => ih (hfg _ _ _ _ hst hab)

theorem Class.Alike.method? {c d : Class} (hcd : Class.Alike looked c d) (name descriptor : String) :
    Option.Rel (Method.Alike looked) (c.method? name descriptor) (d.method? name descriptor) := by
  have hmethods := hcd.methods
  unfold Class.method?
  generalize c.methods = ms at hmethods
  generalize d.methods = ns at hmethods
  induction hmethods with
  | nil => exact .none
  | @cons m n ms ns hmn _ ih =>
    rw [List.find?_cons, List.find?_cons, ← hmn.name, ← hmn.descriptor]
    cases decide (m.name = name) && decide (m.descriptor = descriptor) with
    | true => exact .some hmn
    | false => exact ih

theorem Class.Alike.isSome_method? {c d : Class} (hcd : Class.Alike looked c d)
    (name descriptor : String) :
    (c.method? name descriptor).isSome = (d.method? name descriptor).isSome := by
  rcases rel_cases (hcd.method? name descriptor) with ⟨hc, hd⟩ | ⟨_, _, hc, hd, _⟩
  · rw [hc, hd]
  · rw [hc, hd]
    rfl

theorem Class.Alike.use? {c d : Class} (hcd : Class.Alike looked c d) (type : ClassName) :
    c.use? type = d.use? type := by
  rw [Class.use?, Class.use?, hcd.annotations]

namespace ClassSpace.Alike

variable {s t : ClassSpace} {c d : Class}

theorem lookup? (hst : ClassSpace.Alike looked s t) (name : ClassName) :
    Option.Rel (Class.Alike looked) (s.lookup? name) (t.lookup? name) := by
  show Option.Rel _ (OrderedMap.find name s.classes.entries) (OrderedMap.find name t.classes.entries)
  unfold ClassSpace.Alike at hst
  generalize s.classes.entries = l at hst
  generalize t.classes.entries = m at hst
  induction hst with
  | nil => exact .none
  | @cons e f _ _ hef _ ih =>
    rw [OrderedMap.find, OrderedMap.find, ← hef.1]
    split
    · exact .some hef.2
    · exact ih

theorem put {k : ClassName} (hcd : Class.Alike looked c d) {l m : List (ClassName × Class)}
    (hlm : List.Forall₂ (fun e f => e.1 = f.1 ∧ Class.Alike looked e.2 f.2) l m) :
    List.Forall₂ (fun e f => e.1 = f.1 ∧ Class.Alike looked e.2 f.2)
      (OrderedMap.put k c l) (OrderedMap.put k d m) := by
  induction hlm with
  | nil => exact .cons ⟨rfl, hcd⟩ .nil
  | @cons e f _ _ hef hrest ih =>
    rw [OrderedMap.put, OrderedMap.put, ← hef.1]
    cases compare k e.1 with
    | lt => exact .cons ⟨rfl, hcd⟩ (.cons hef hrest)
    | eq => exact .cons ⟨rfl, hcd⟩ hrest
    | gt => exact .cons hef ih

theorem insert (hst : ClassSpace.Alike looked s t) (hcd : Class.Alike looked c d) :
    ClassSpace.Alike looked (s.insert c) (t.insert d) := by
  show List.Forall₂ _ (OrderedMap.put c.name c _) (OrderedMap.put d.name d _)
  rw [← hcd.name]
  exact put hcd hst

theorem insertNew (hst : ClassSpace.Alike looked s t) (hcd : Class.Alike looked c d) :
    ClassSpace.Alike looked (s.insertNew c) (t.insertNew d) := by
  have hname := hst.lookup? c.name
  unfold ClassSpace.insertNew
  rw [← hcd.name]
  rcases rel_cases hname with ⟨hs, ht⟩ | ⟨_, _, hs, ht, _⟩
  · rw [hs, ht]
    exact hst.insert hcd
  · rw [hs, ht]
    exact hst

theorem size (hst : ClassSpace.Alike looked s t) : s.size = t.size := List.Forall₂.length_eq hst

end ClassSpace.Alike

namespace Hierarchy

variable {h k : Hierarchy} {classes others : List Class}

theorem alike_ofClasses (hc : List.Forall₂ (Class.Alike looked) classes others) :
    Alike looked (ofClasses classes) (ofClasses others) where
  standIns := rfl
  program := by
    have hplatform : List.Forall₂ (Class.Alike looked) platformClasses platformClasses :=
      List.forall₂_same.2 fun c _ => Class.Alike.refl c
    have hempty : ClassSpace.Alike looked .empty .empty := List.Forall₂.nil
    unfold ofClasses
    generalize platformClasses = platform at hplatform ⊢
    apply foldl_alike (R := Class.Alike looked) _ hplatform
    · apply foldl_alike (R := Class.Alike looked) _ hc hempty
      exact fun _ _ _ _ hst hcd => hst.insert hcd
    · exact fun _ _ _ _ hst hcd => hst.insertNew hcd

namespace Alike

variable (hk : Alike looked h k)
include hk

theorem lookup? (name : ClassName) :
    Option.Rel (Class.Alike looked) (h.lookup? name) (k.lookup? name) := by
  unfold Hierarchy.lookup?
  rw [← hk.standIns]
  rcases rel_cases (hk.program.lookup? name) with ⟨hs, ht⟩ | ⟨c, d, hs, ht, hcd⟩
  · rw [hs, ht]
    show Option.Rel _ (h.standIns.lookup? name) (h.standIns.lookup? name)
    cases h.standIns.lookup? name with
    | none => exact .none
    | some c => exact .some (Class.Alike.refl c)
  · rw [hs, ht]
    exact .some hcd

theorem size_eq : h.size = k.size := by
  rw [Hierarchy.size, Hierarchy.size, hk.program.size, hk.standIns]

theorem super? {c d : Class} (hcd : Class.Alike looked c d) :
    Option.Rel (Class.Alike looked) (h.super? c) (k.super? d) := by
  unfold Hierarchy.super?
  rw [← hcd.superName]
  cases c.superName with
  | none => exact .none
  | some name => exact hk.lookup? name

theorem resolveFrom? (m : MethodRef) (steps : Nat) : ∀ {c d : Option Class},
    Option.Rel (Class.Alike looked) c d → h.resolveFrom? m steps c = k.resolveFrom? m steps d := by
  induction steps with
  | zero =>
    intro c d hcd
    cases hcd with
    | none => rfl
    | some hcd =>
      rw [Hierarchy.resolveFrom?, Hierarchy.resolveFrom?, ← hcd.name, ← hcd.isSome_method?]
  | succ steps ih =>
    intro c d hcd
    cases hcd with
    | none => rfl
    | some hcd =>
      rw [Hierarchy.resolveFrom?, Hierarchy.resolveFrom?, ← hcd.name, ← hcd.isSome_method?,
        ih (hk.super? hcd)]

theorem resolve? (m : MethodRef) : h.resolve? m = k.resolve? m := by
  rw [Hierarchy.resolve?, Hierarchy.resolve?, ← hk.size_eq]
  exact hk.resolveFrom? m h.size (hk.lookup? m.owner)

theorem target? (hlooked : ∀ m op, h.resolve? m = some (Operation.method op) → looked m) {a b : Call}
    (hab : Call.Alike looked a b) : h.target? a = k.target? b := by
  have hoperation : h.operation? a = k.operation? b := by
    rw [Hierarchy.operation?, Hierarchy.operation?, ← hab.target, hk.resolve?]
  have hasked : h.asked? a = k.asked? b := by
    rw [Hierarchy.asked?, Hierarchy.asked?, ← hoperation]
    cases hop : h.operation? a with
    | none => rfl
    | some op =>
      obtain ⟨m, hm, hof⟩ := Option.bind_eq_some_iff.1 hop
      have hlook : looked a.target := hlooked _ op (Operation.of?_eq_some_iff.1 hof ▸ hm)
      rw [Option.bind_some, Option.bind_some,
        Operation.lookup?_congr (hab.subject hlook) (hab.sought hlook)]
  rw [Hierarchy.target?, Hierarchy.target?, ← hab.target, hk.resolve?, hasked]

/-! ### What synthesizers ask of a hierarchy -/

theorem finding (subject sought : ClassName) :
    h.finding subject sought = k.finding subject sought := by
  unfold Hierarchy.finding
  rcases rel_cases (hk.lookup? subject) with ⟨hc, hd⟩ | ⟨c, d, hc, hd, hcd⟩
  · rw [hc, hd]
  · rw [hc, hd]
    dsimp only
    rw [hcd.use?]
    rcases rel_cases (hk.lookup? sought) with ⟨hc', hd'⟩ | ⟨_, _, hc', hd', _⟩
    · rw [hc', hd']
    · rw [hc', hd']
      rfl

theorem method? (m : MethodRef) : Option.Rel (Method.Alike looked) (h.method? m) (k.method? m) := by
  show Option.Rel _ ((h.lookup? m.owner).bind _) ((k.lookup? m.owner).bind _)
  rcases rel_cases (hk.lookup? m.owner) with ⟨hc, hd⟩ | ⟨c, d, hc, hd, hcd⟩
  · rw [hc, hd]
    exact .none
  · rw [hc, hd]
    exact hcd.method? m.name m.descriptor

theorem firstFree (m : MethodRef) : h.firstFree m = k.firstFree m := by
  have hstatic : (h.method? m).any (fun m => m.access.isStatic)
      = (k.method? m).any fun m => m.access.isStatic := by
    rcases rel_cases (hk.method? m) with ⟨hc, hd⟩ | ⟨_, _, hc, hd, hcd⟩
    · rw [hc, hd]
    · rw [hc, hd, Option.any_some, Option.any_some, hcd.access]
  rw [Hierarchy.firstFree, Hierarchy.firstFree, hstatic]

theorem register (c : Class) :
    (h.register c).1 = (k.register c).1 ∧ Alike looked (h.register c).2 (k.register c).2 := by
  rw [register_eq, register_eq, hk.standIns]
  exact ⟨rfl, hk.program, rfl⟩

omit hk in
/-- Hierarchies that are alike answer all lookups alike. -/
theorem answering : Answering (Alike looked) fun _ => True where
  finding hk subject sought _ := hk.finding subject sought
  firstFree hk := hk.firstFree _
  register hk := hk.register

end Alike

end Hierarchy

/-! ### Requests -/

namespace Synthesizer

structure Alike (looked : MethodRef → Prop) (s t : Synthesizer) : Prop where
  hierarchy : Hierarchy.Alike looked s.hierarchy t.hierarchy
  bodies : s.bodies = t.bodies
  standIns : s.standIns = t.standIns
  warnings : s.warnings = t.warnings

theorem Alike.lockstep {s t : Synthesizer} (hst : Alike looked s t) :
    Lockstep (Hierarchy.Alike looked) s t :=
  ⟨hst.hierarchy, hst.bodies, hst.standIns, hst.warnings⟩

end Synthesizer

/-! ### Both walks -/

structure Exploration.Alike (looked : MethodRef → Prop) (x y : Exploration) : Prop where
  selector : x.selector = .standard ∧ y.selector = .standard
  synthesizer : Synthesizer.Alike looked x.synthesizer y.synthesizer
  graph : x.graph = y.graph

namespace Exploration.Alike

variable {x y : Exploration}

theorem enter (hxy : Alike looked x y) (m : MethodRef) :
    (x.enter m).1 = (y.enter m).1 ∧ Alike looked (x.enter m).2 (y.enter m).2 := by
  show (x.graph.addNode m.entry).1 = (y.graph.addNode m.entry).1 ∧ _
  rw [hxy.graph]
  exact ⟨rfl, hxy.selector, hxy.synthesizer, congrArg (fun g => (g.addNode m.entry).2) hxy.graph⟩

theorem follow (hxy : Alike looked x y)
    (hlooked : ∀ m op, x.hierarchy.resolve? m = some (Operation.method op) → looked m) (caller : Nat)
    {a b : Call} (hab : Call.Alike looked a b) :
    Alike looked (x.step (.follow caller a)) (y.step (.follow caller b)) ∧
      (x.step (.follow caller a)).hierarchy = x.hierarchy := by
  have hgraph := hxy.graph
  cases hn : x.graph.node? caller with
  | none =>
    rw [step_follow_error (follow_unknown x hn a),
      step_follow_error (follow_unknown y (hgraph ▸ hn) b)]
    exact ⟨hxy, rfl⟩
  | some node =>
    have hx := follow_standard hxy.selector.1 hn a
    have hy := follow_standard hxy.selector.2 (hgraph ▸ hn) b
    have htarget : x.hierarchy.target? a = y.hierarchy.target? b :=
      hxy.synthesizer.hierarchy.target? hlooked hab
    rw [← htarget] at hy
    cases ht : x.hierarchy.target? a with
    | none =>
      rw [ht] at hx hy
      rw [step_follow_ok hx, step_follow_ok hy]
      exact ⟨hxy, rfl⟩
    | some n =>
      rw [ht] at hx hy
      rw [step_follow_ok hx, step_follow_ok hy]
      refine ⟨⟨hxy.selector, hxy.synthesizer, ?_⟩, rfl⟩
      show (x.graph.addNode n).2.addEdge _ = (y.graph.addNode n).2.addEdge _
      rw [hgraph, hab.offset]

end Exploration.Alike

namespace Analysis

variable {h k : Hierarchy}

/-- Explorations that are alike while calls are followed, so that the first is still one of a given
hierarchy. -/
def Abreast (looked : MethodRef → Prop) (h : Hierarchy) (x y : Exploration) : Prop :=
  Exploration.Alike looked x y ∧ x.hierarchy = h

theorem Abreast.visitMethod (hlooked : ∀ m op, h.resolve? m = some (Operation.method op) → looked m)
    {x y : Exploration} (hxy : Abreast looked h x y) {c d : Class} (hname : c.name = d.name)
    {m n : Method} (hmn : Method.Alike looked m n) :
    Abreast looked h (visitMethod c x m) (visitMethod d y n) := by
  have hentry : c.methodRef m = d.methodRef n := by
    rw [Class.methodRef, Class.methodRef, hname, hmn.name, hmn.descriptor]
  obtain ⟨hcaller, henter⟩ := hxy.1.enter (c.methodRef m)
  unfold Analysis.visitMethod
  rw [← hentry, ← hcaller]
  apply foldl_alike (S := Abreast looked h) _ hmn.calls ⟨henter, hxy.2⟩
  rintro x' y' a b ⟨hxy', hh⟩ hab
  obtain ⟨hnext, hsame⟩ := hxy'.follow (hh ▸ hlooked) (x.enter (c.methodRef m)).1 hab
  exact ⟨hnext, hsame.trans hh⟩

theorem Abreast.visitClass (hlooked : ∀ m op, h.resolve? m = some (Operation.method op) → looked m)
    {x y : Exploration} (hxy : Abreast looked h x y) {c d : Class} (hcd : Class.Alike looked c d) :
    Abreast looked h (visitClass x c) (visitClass y d) := by
  apply foldl_alike _ hcd.methods hxy
  exact fun x y m n hxy hmn => hxy.visitMethod hlooked hcd.name hmn

theorem alike_targets (hk : Hierarchy.Alike looked h k) :
    List.Forall₂ (Class.Alike looked) (targets h) (targets k) := by
  have hclasses : List.Forall₂ (Class.Alike looked) h.program.toList k.program.toList :=
    List.rel_map (fun _ _ hef => hef.2) hk.program
  apply List.rel_filter _ hclasses
  intro c d hcd
  show c.analyzed = true ↔ d.analyzed = true
  rw [hcd.analyzed]

theorem alike_explored (hlooked : ∀ m op, h.resolve? m = some (Operation.method op) → looked m)
    (hk : Hierarchy.Alike looked h k) : Exploration.Alike looked (explored h) (explored k) := by
  have hstart : Abreast looked h (.start .standard h) (.start .standard k) :=
    ⟨⟨⟨rfl, rfl⟩, ⟨hk, rfl, rfl, rfl⟩, rfl⟩, rfl⟩
  have hall : Abreast looked h (explored h) (explored k) := by
    apply foldl_alike _ (alike_targets hk) hstart
    exact fun x y c d hxy hcd => hxy.visitClass hlooked hcd
  exact hall.1

theorem alike_reportAll (edges : List Edge) {x y x' : Exploration} {calls : List ReportedCall}
    (hxy : Exploration.Alike looked x y) (hx : reportAll x edges = .ok (calls, x')) :
    ∃ y', reportAll y edges = .ok (calls, y') ∧
      Exploration.Lockstep (Hierarchy.Alike looked) (fun _ => True) x' y' :=
  reportAll_lockstep Hierarchy.Alike.answering edges
    ⟨hxy.graph, hxy.synthesizer.lockstep, fun _ _ => trivial⟩ hx

/-- **An analysis does not look at what may differ.**  Programs that differ in interfaces, fields and
kinds of calls have one analysis, whatever arguments their calls have, if calls that resolve to a
lookup method agree in the object and in the annotation sought. -/
theorem run_congr (classes others : List Class)
    (hc : List.Forall₂ (Class.Alike fun m =>
      ∃ op, (Hierarchy.ofClasses classes).resolve? m = some (Operation.method op)) classes others) :
    run classes = run others := by
  have hk := Hierarchy.alike_ofClasses hc
  have halike := alike_explored (fun m op hm => ⟨op, hm⟩) hk
  have hx := (explored_ok (h := .ofClasses classes) rfl).2
  obtain ⟨calls, x', hok, _⟩ := reportAll_ok (exploredEdges (.ofClasses classes)) _ hx hx.linked
  obtain ⟨y', hok', hlast⟩ := alike_reportAll _ halike hok
  have hedges : exploredEdges (.ofClasses classes) = exploredEdges (.ofClasses others) := by
    rw [exploredEdges, exploredEdges, halike.graph]
  have hstandIns : x'.synthesizer.standInCount = y'.synthesizer.standInCount :=
    congrArg List.length hlast.synthesizer.standIns
  rw [run_eq, run_eq, hok, ← hedges, hok']
  show Except.ok (outcome _ (calls, x')) = .ok (outcome _ (calls, y'))
  rw [outcome, outcome, (alike_targets hk).length_eq, hedges, hlast.graph,
    hlast.synthesizer.warnings, hstandIns]

/-- A program with a lookup on a class that has a label, and with another call.  A kind of calls,
arguments that no lookup looks at, the interfaces and the fields are left open. -/
def labelledGate (dispatch : Dispatch) (other : ObjectKey) (interfaces : List ClassName)
    (fields : List Field) : List Class :=
  [ ⟨"p/Gate", none, interfaces, [⟨"p/Label", .ofList [("text", .constant (.string "shut"))]⟩], fields,
      [⟨"open", "()V", ⟨true, true, false⟩,
        [ ⟨classClass, Operation.methodName, Operation.descriptor, dispatch, 1,
            [.known (.classObject "p/Gate"), .known (.classObject "p/Label"), other]⟩,
          ⟨"p/Gate", "open", "()V", dispatch, 2, [other, .unknown]⟩ ]⟩], true⟩,
    ⟨"p/Label", none, [], [], [], [], false⟩ ]

theorem run_congr_labelledGate :
    List.Forall₂ (Class.Alike fun m => ∃ op,
        (Hierarchy.ofClasses (labelledGate .virtual .unknown [] [])).resolve? m
          = some (Operation.method op))
      (labelledGate .virtual .unknown [] [])
      (labelledGate .static (.known (.classObject "p/Label")) ["p/Door"] [⟨"key", stringClass⟩]) ∧
    run (labelledGate .virtual .unknown [] [])
      = run (labelledGate .static (.known (.classObject "p/Label")) ["p/Door"]
          [⟨"key", stringClass⟩]) := by
  have hown : (Hierarchy.ofClasses (labelledGate .virtual .unknown [] [])).resolve?
      ⟨"p/Gate", "open", "()V"⟩ = some ⟨"p/Gate", "open", "()V"⟩ := by decide +kernel
  have hother : ¬ ∃ op, (Hierarchy.ofClasses (labelledGate .virtual .unknown [] [])).resolve?
      ⟨"p/Gate", "open", "()V"⟩ = some (Operation.method op) := by
    rintro ⟨op, hop⟩
    have hname := congrArg MethodRef.name (Option.some.inj (hown.symm.trans hop))
    exact absurd (show "open" = Operation.methodName from hname) (by decide)
  have halike : List.Forall₂ (Class.Alike fun m => ∃ op,
        (Hierarchy.ofClasses (labelledGate .virtual .unknown [] [])).resolve? m
          = some (Operation.method op))
      (labelledGate .virtual .unknown [] [])
      (labelledGate .static (.known (.classObject "p/Label")) ["p/Door"] [⟨"key", stringClass⟩]) := by
    refine .cons ⟨rfl, rfl, rfl, .cons ⟨rfl, rfl, rfl, ?_⟩ .nil, rfl⟩ (.cons (Class.Alike.refl _) .nil)
    refine .cons ⟨rfl, rfl, fun _ => rfl, fun _ => rfl⟩ (.cons ⟨rfl, rfl, ?_, ?_⟩ .nil)
    · exact fun hlooked => absurd hlooked hother
    · exact fun hlooked => absurd hlooked hother
  exact ⟨halike, run_congr _ _ halike⟩

end Analysis

end AnnotationGraph
