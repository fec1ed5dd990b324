import AnnotationGraph.Command.Basic

/-!
# Where the report of a run goes

A run opens the place of its report last, after the manifest was read, checked and analyzed.  So a run
that fails leaves what every place holds, an older report among them, and a run that completes has
put its whole report to one place.  That is shown of all systems whose operations do what they are
documented to do, whatever their paths lead to.

* `isStdout_iff`               the paths that stand for the output of a run;
* `View`, `Storage.Respects`   what there is to see of a system, and what its operations do to it;
* `Analyzes`, `Opens`, `Wrote`   the steps of a run;
* `run_goes`                   how a run goes;
* `execute_delivers`           what the program leaves;
* `execute_completes`          when a run completes.
-/

namespace AnnotationGraph

/-! ### The dash -/

/-- A dash, with empty steps and dots behind it. -/
def IsDash (path : Input) : Prop :=
  ∃ steps : List Input, (∀ step ∈ steps, step = [] ∨ step = .ofText ".") ∧
    path = [Symbol.char '/'].intercalate (Input.ofText "-" :: steps)

theorem Component.ofStep?_eq_none_iff {step : Input} :
    ofStep? step = none ↔ step = [] ∨ step = .ofText "." := by
  unfold ofStep?
  split
  next h => exact iff_of_true rfl h
  next h =>
    refine iff_of_false ?_ h
    split
    · exact Option.some_ne_none _
    · exact Option.some_ne_none _

theorem components_eq_dash_iff {path first : Input} {rest : List Input}
    (h : pathSteps path = first :: rest) :
    components path = [.name (.ofText "-")] ↔
      first = .ofText "-" ∧ ∀ step ∈ rest, step = [] ∨ step = .ofText "." := by
  have hrest : rest.filterMap Component.ofStep? = [] ↔
      ∀ step ∈ rest, step = [] ∨ step = .ofText "." := by
    rw [List.filterMap_eq_nil_iff]
    exact forall₂_congr fun step _ => Component.ofStep?_eq_none_iff
  rw [← hrest]
  unfold components
  rw [h]
  dsimp only
  by_cases hempty : first = []
  · subst hempty
    cases rest with
    | nil => simp [Input.ofText]
    | cons step rest => simp [Input.ofText]
  · by_cases hdot : first = .ofText "."
    · subst hdot
      simp [Input.ofText]
    · by_cases habove : first = .ofText ".."
      · subst habove
        simp [Component.ofStep?, Input.ofText]
      · simp [hempty, hdot, habove, Component.ofStep?]

theorem Command.isStdout_iff {path : Input} : isStdout path = true ↔ IsDash path := by
  have hdash : components (.ofText "-") = [.name (.ofText "-")] := by decide +kernel
  unfold isStdout IsDash
  rw [hdash, decide_eq_true_iff]
  constructor
  · intro h
    have hne : pathSteps path ≠ [] := List.splitOn_ne_nil _ _
    obtain ⟨first, rest, hsteps⟩ := List.exists_cons_of_ne_nil hne
    obtain ⟨rfl, hrest⟩ := (components_eq_dash_iff hsteps).1 h
    refine ⟨rest, hrest, ?_⟩
    rw [← hsteps, pathSteps, List.intercalate_splitOn]
  · rintro ⟨steps, hsteps, rfl⟩
    apply (components_eq_dash_iff _).2 ⟨rfl, hsteps⟩
    apply List.splitOn_intercalate _ _ (List.cons_ne_nil _ _)
    intro step hstep
    rcases List.mem_cons.1 hstep with rfl | hmem
    · decide
    · rcases hsteps step hmem with rfl | rfl
      · decide
      · decide

/-! ### Systems -/

/-- What there is to see of a system in a state: what its places hold, and where a text goes that is
written to a sink. -/
structure View (σ Sink Place : Type) where
  held : σ → Place → Option Input
  /-- the place of a sink, unless what it takes is held nowhere -/
  place? : Sink → Option Place
  /-- what is written to a sink stands behind all that its place holds -/
  AtEnd : σ → Sink → Prop

namespace View

variable {σ Sink Place : Type}

structure Same (v : View σ Sink Place) (s s' : σ) : Prop where
  held : v.held s' = v.held s
  atEnd : v.AtEnd s' = v.AtEnd s

/-- The place of a sink has changed in a certain way, and no other place has. -/
structure Changes (v : View σ Sink Place) (sink : Sink)
    (change : Option Input → Option Input → Prop) (s s' : σ) : Prop where
  atEnd : v.AtEnd s' sink
  changed : ∀ p, v.place? sink = some p → change (v.held s p) (v.held s' p)
  others : ∀ p, v.place? sink ≠ some p → v.held s' p = v.held s p

theorem Same.trans {v : View σ Sink Place} {s s₁ s₂ : σ} (h : v.Same s s₁) (h' : v.Same s₁ s₂) :
    v.Same s s₂ :=
  ⟨h'.held.trans h.held, h'.atEnd.trans h.atEnd⟩

end View

variable {σ Sink Place : Type} {storage : Storage (StateM σ) Sink} {v : View σ Sink Place}

/-- What a run relies on.  Looking and reading change no content, nor does a file that cannot be
opened.  A file is empty when it is open, unless it is the output of the run under another name.  A
text that could be written stands behind what its place held. -/
structure Storage.Respects (storage : Storage (StateM σ) Sink) (v : View σ Sink Place) : Prop where
  looks : ∀ path s found s', (storage.exists? path).run s = (found, s') → v.Same s s'
  reads : ∀ path s content s', (storage.read? path).run s = (content, s') → v.Same s s'
  refuses : ∀ path s s', (storage.create? path).run s = (none, s') → v.held s' = v.held s
  opens : ∀ path s sink s', (storage.create? path).run s = (some sink, s') →
    v.Changes sink (fun before after =>
      after = some [] ∨ v.place? storage.stdout = v.place? sink ∧ after = before) s s'
  writes : ∀ sink text s s', v.AtEnd s sink → (storage.write sink text).run s = (true, s') →
    v.Changes sink (fun before after => after = before.map (· ++ .ofText text)) s s'

namespace Command

/-! ### The steps of a run -/

/-- There is a proper manifest at a path, with an analysis; when it has been read, the system is in
another state. -/
def Analyzes (storage : Storage (StateM σ) Sink) (s : σ) (input : Input) (a : Analysis)
    (s' : σ) : Prop :=
  ∃ s₁ content manifest, (storage.exists? input).run s = (true, s₁) ∧
    (storage.read? input).run s₁ = (some content, s') ∧
    Manifest.parse content = .ok manifest ∧ Analysis.run manifest.classes = .ok a

/-- The sink to which the report goes, which is the output of the run or the file at a path. -/
inductive Opens (storage : Storage (StateM σ) Sink) (s : σ) : Option Input → Sink → σ → Prop
  | unnamed : Opens storage s none storage.stdout s
  | dash {path} (hpath : IsDash path) : Opens storage s (some path) storage.stdout s
  | file {path sink s'} (hpath : ¬ IsDash path)
      (hcreate : (storage.create? path).run s = (some sink, s')) :
      Opens storage s (some path) sink s'

/-- Texts have been written to a sink, one after the other. -/
inductive Wrote (storage : Storage (StateM σ) Sink) (sink : Sink) : σ → List String → σ → Prop
  | nothing {s} : Wrote storage sink s [] s
  | more {s s₁ s' text texts} (hwrite : (storage.write sink text).run s = (true, s₁))
      (hrest : Wrote storage sink s₁ texts s') : Wrote storage sink s (text :: texts) s'

def Accepts (storage : Storage (StateM σ) Sink) (sink : Sink) : Prop :=
  ∀ text s, ((storage.write sink text).run s).1 = true

theorem Wrote.changes {sink : Sink} {s s' : σ} {texts : List String} (hstorage : storage.Respects v)
    (h : Wrote storage sink s texts s') (hend : v.AtEnd s sink) :
    v.Changes sink (fun before after => after = before.map (· ++ .ofText (String.join texts)))
      s s' := by
  induction h with
  | nothing => exact ⟨hend, fun p _ => by simp [Input.ofText], fun p _ => rfl⟩
  | more hwrite _ ih =>
    have hfirst := hstorage.writes _ _ _ _ hend hwrite
    have hrest := ih hfirst.atEnd
    refine ⟨hrest.atEnd, fun p hp => ?_, fun p hp => (hrest.others p hp).trans (hfirst.others p hp)⟩
    rw [hrest.changed p hp, hfirst.changed p hp, Option.map_map]
    congr 1
    funext before
    simp [Input.ofText]

/-! ### How a run goes -/

theorem run_bind {α β : Type} {x : StateM σ α} {f : α → StateM σ β} {s s' : σ} {a : α}
    (h : x.run s = (a, s')) : (x >>= f).run s = (f a).run s' := by
  rw [StateT.run_bind, h]
  rfl

theorem analyze_goes {input : Input} {s s' : σ} {result : Except RunError Analysis}
    (hstorage : storage.Respects v) (hrun : (analyze storage input).run s = (result, s')) :
    v.Same s s' ∧ ∀ a, result = .ok a → Analyzes storage s input a s' := by
  rcases hlook : (storage.exists? input).run s with ⟨found, s₁⟩
  have hlooked := hstorage.looks _ _ _ _ hlook
  unfold analyze at hrun
  rw [run_bind hlook] at hrun
  cases found with
  | false =>
    obtain ⟨rfl, rfl⟩ := Prod.mk.inj hrun
    exact ⟨hlooked, fun a ha => nomatch ha⟩
  | true =>
    rcases hread : (storage.read? input).run s₁ with ⟨content, s₂⟩
    have hsame := hlooked.trans (hstorage.reads _ _ _ _ hread)
    rw [if_pos rfl, run_bind hread] at hrun
    cases content with
    | none =>
      obtain ⟨rfl, rfl⟩ := Prod.mk.inj hrun
      exact ⟨hsame, fun a ha => nomatch ha⟩
    | some content =>
      dsimp only at hrun
      cases hparse : Manifest.parse content with
      | error e =>
        rw [hparse] at hrun
        obtain ⟨rfl, rfl⟩ := Prod.mk.inj hrun
        exact ⟨hsame, fun a ha => nomatch ha⟩
      | ok manifest =>
        rw [hparse] at hrun
        obtain ⟨rfl, rfl⟩ := Prod.mk.inj hrun
        refine ⟨hsame, fun a ha => ⟨s₁, content, manifest, hlook, hread, hparse, ?_⟩⟩
        cases hanalysis : Analysis.run manifest.classes with
        | error e =>
          rw [hanalysis] at ha
          exact nomatch ha
        | ok b =>
          rw [hanalysis] at ha
          exact congrArg Except.ok (Except.ok.inj ha)

theorem openOutput_goes {output : Option Input} {s s' : σ} {result : Except RunError Sink}
    (hstorage : storage.Respects v) (hrun : (openOutput storage output).run s = (result, s')) :
    (∀ e, result = .error e → v.held s' = v.held s) ∧
      ∀ sink, result = .ok sink → Opens storage s output sink s' := by
  cases output with
  | none =>
    obtain ⟨rfl, rfl⟩ := Prod.mk.inj hrun
    exact ⟨fun e he => (nomatch he), fun sink hsink => Except.ok.inj hsink ▸ .unnamed⟩
  | some path =>
    unfold openOutput at hrun
    dsimp only at hrun
    by_cases hpath : isStdout path = true
    · rw [if_pos hpath] at hrun
      obtain ⟨rfl, rfl⟩ := Prod.mk.inj hrun
      refine ⟨fun e he => (nomatch he), fun sink hsink => ?_⟩
      exact Except.ok.inj hsink ▸ .dash (isStdout_iff.1 hpath)
    · rcases hcreate : (storage.create? path).run s with ⟨opened, s₁⟩
      rw [if_neg hpath, run_bind hcreate] at hrun
      cases opened with
      | none =>
        obtain ⟨rfl, rfl⟩ := Prod.mk.inj hrun
        exact ⟨fun _ _ => hstorage.refuses _ _ _ hcreate, fun sink hsink => nomatch hsink⟩
      | some sink =>
        obtain ⟨rfl, rfl⟩ := Prod.mk.inj hrun
        refine ⟨fun e he => (nomatch he), fun other hother => ?_⟩
        exact Except.ok.inj hother ▸ .file (mt isStdout_iff.2 hpath) hcreate

theorem writeLine_goes {sink : Sink} (hsink : Accepts storage sink) (s : σ) (text : String) :
    ∃ s', (writeLine storage sink text).run s = (.ok (), s') ∧
      Wrote storage sink s [text, "\n"] s' := by
  rcases hfirst : (storage.write sink text).run s with ⟨done, s₁⟩
  obtain rfl : done = true := by simpa only [hfirst] using hsink text s
  rcases hlast : (storage.write sink "\n").run s₁ with ⟨done, s₂⟩
  obtain rfl : done = true := by simpa only [hlast] using hsink "\n" s₁
  refine ⟨s₂, ?_, .more hfirst (.more hlast .nothing)⟩
  unfold writeLine
  rw [run_bind hfirst, if_pos rfl, run_bind hlast]
  rfl

/-- A run fails and leaves what all places hold, or it writes the report of its analysis to its
output, last. -/
inductive Goes (storage : Storage (StateM σ) Sink) (v : View σ Sink Place) (arguments : List Input)
    (options : Options) (s : σ) : Ending → σ → Prop
  | failed {ending s'} (hexit : ending.exitCode ≠ 0) (hheld : v.held s' = v.held s) :
      Goes storage v arguments options s ending s'
  | done {ending words a s₁ sink s₂ s'} (hexit : ending.exitCode = 0)
      (hwords : arguments.mapM Input.text? = some words)
      (hanalyzes : Analyzes storage s options.input a s₁)
      (hopens : Opens storage s₁ options.output sink s₂)
      (hwrote : Wrote storage sink s₂ [reportText words a, "\n"] s') :
      Goes storage v arguments options s ending s'

/-- The output of a run accepts every text, once there is something to report. -/
def OutputAccepts (storage : Storage (StateM σ) Sink) (options : Options) (s : σ) : Prop :=
  ∀ a s₁ sink s₂, Analyzes storage s options.input a s₁ →
    Opens storage s₁ options.output sink s₂ → Accepts storage sink

variable {arguments : List Input} {options : Options} {s s' : σ} {ending : Ending}

theorem run_goes (hstorage : storage.Respects v) (haccepts : OutputAccepts storage options s)
    (hrun : (run storage arguments options).run s = (ending, s')) :
    Goes storage v arguments options s ending s' := by
  rcases hanalyze : (analyze storage options.input).run s with ⟨analyzed, s₁⟩
  obtain ⟨hsame, hanalyzes⟩ := analyze_goes hstorage hanalyze
  unfold run at hrun
  rw [run_bind hanalyze] at hrun
  cases analyzed with
  | error e =>
    obtain ⟨rfl, rfl⟩ := Prod.mk.inj hrun
    exact .failed (show (1 : UInt32) ≠ 0 by decide) hsame.held
  | ok a =>
    dsimp only at hrun
    cases hwords : arguments.mapM Input.text? with
    | none =>
      rw [hwords] at hrun
      obtain ⟨rfl, rfl⟩ := Prod.mk.inj hrun
      exact .failed (show (101 : UInt32) ≠ 0 by decide) hsame.held
    | some words =>
      rw [hwords] at hrun
      dsimp only [deliver] at hrun
      rcases hopen : (openOutput storage options.output).run s₁ with ⟨opened, s₂⟩
      obtain ⟨hrefused, hopens⟩ := openOutput_goes hstorage hopen
      cases opened with
      | error e =>
        rw [bind_assoc, run_bind hopen] at hrun
        obtain ⟨rfl, rfl⟩ := Prod.mk.inj hrun
        exact .failed (show (1 : UInt32) ≠ 0 by decide) ((hrefused e rfl).trans hsame.held)
      | ok sink =>
        have hsink := haccepts a s₁ sink s₂ (hanalyzes a rfl) (hopens sink rfl)
        obtain ⟨s₃, hwrite, hwrote⟩ := writeLine_goes hsink s₂ (reportText words a)
        rw [bind_assoc, run_bind hopen] at hrun
        dsimp only at hrun
        rw [run_bind hwrite] at hrun
        obtain ⟨rfl, rfl⟩ := Prod.mk.inj hrun
        exact .done rfl hwords (hanalyzes a rfl) (hopens sink rfl) hwrote

/-! ### What is left -/

variable {out : Place}

/-- The output of a run is a place at which nothing is shown yet. -/
structure Blank (storage : Storage (StateM σ) Sink) (v : View σ Sink Place) (out : Place)
    (s : σ) : Prop where
  place : v.place? storage.stdout = some out
  empty : v.held s out = some []
  atEnd : v.AtEnd s storage.stdout

/-- A text has been written to a sink after it was opened.  The place of the sink holds that text alone,
and nothing else has changed. -/
structure Delivered (storage : Storage (StateM σ) Sink) (v : View σ Sink Place) (text : String)
    (sink : Sink) (before opened after : σ) : Prop where
  wrote : ∃ texts, String.join texts = text ∧ Wrote storage sink opened texts after
  holds : ∀ p, v.place? sink = some p → v.held after p = some (.ofText text)
  others : ∀ p, v.place? sink ≠ some p → v.held after p = v.held before p

theorem Blank.of_same (h : Blank storage v out s) (hsame : v.Same s s') :
    Blank storage v out s' :=
  ⟨h.place, hsame.held ▸ h.empty, hsame.atEnd ▸ h.atEnd⟩

theorem Analyzes.same {input : Input} {a : Analysis} (hstorage : storage.Respects v)
    (h : Analyzes storage s input a s') : v.Same s s' := by
  obtain ⟨s₁, _, _, hlook, hread, _⟩ := h
  exact (hstorage.looks _ _ _ _ hlook).trans (hstorage.reads _ _ _ _ hread)

theorem Opens.changes {output : Option Input} {sink : Sink} (hstorage : storage.Respects v)
    (hblank : Blank storage v out s) (h : Opens storage s output sink s') :
    v.Changes sink (fun _ after => after = some []) s s' := by
  have hstdout : ∀ p, v.place? storage.stdout = some p → v.held s p = some [] := by
    intro p hp
    obtain rfl : out = p := Option.some.inj (hblank.place.symm.trans hp)
    exact hblank.empty
  cases h with
  | unnamed => exact ⟨hblank.atEnd, hstdout, fun _ _ => rfl⟩
  | dash _ => exact ⟨hblank.atEnd, hstdout, fun _ _ => rfl⟩
  | file _ hcreate =>
    have hchanges := hstorage.opens _ _ _ _ hcreate
    refine ⟨hchanges.atEnd, fun p hp => ?_, hchanges.others⟩
    rcases hchanges.changed p hp with hnew | ⟨hsame, hold⟩
    · exact hnew
    · exact hold.trans (hstdout p (hsame.trans hp))

theorem delivered_of_wrote {a : Analysis} {sink : Sink} {s₁ s₂ : σ} {text : String}
    (hstorage : storage.Respects v) (hblank : Blank storage v out s)
    (hanalyzes : Analyzes storage s options.input a s₁)
    (hopens : Opens storage s₁ options.output sink s₂)
    (hwrote : Wrote storage sink s₂ [text, "\n"] s') :
    Delivered storage v (text ++ "\n") sink s s₂ s' := by
  have hsame := hanalyzes.same hstorage
  have hopened := hopens.changes hstorage (hblank.of_same hsame)
  have hwritten := hwrote.changes hstorage hopened.atEnd
  have hjoin : String.join [text, "\n"] = text ++ "\n" := by simp
  refine ⟨⟨_, hjoin, hwrote⟩, fun p hp => ?_, fun p hp => ?_⟩
  · rw [hwritten.changed p hp, hopened.changed p hp, hjoin]
    rfl
  · rw [hwritten.others p hp, hopened.others p hp, hsame.held]

/-- **A report is put to one place, or nothing happens.**  In a system that does what a run relies on,
let nothing be shown yet, and let the output that is opened accept every text.  If the program fails,
nothing is shown and every place holds what it held.  If a run completes, the manifest at its input
was proper, and the whole report of its analysis has been written to the output of the run, if no
path is named or a dash is, and to the file at the path else.  The place of that sink holds the
report alone, and all other places hold what they held. -/
theorem execute_delivers (hstorage : storage.Respects v) (hblank : Blank storage v out s)
    (haccepts : ∀ options, Request.parse arguments.tail = .run options →
      OutputAccepts storage options s)
    (hrun : (execute storage arguments).run s = (ending, s')) :
    (ending.exitCode ≠ 0 → v.held s' out = some [] ∧ ∀ p, v.held s' p = v.held s p) ∧
    ∀ options, Request.parse arguments.tail = .run options → ending.exitCode = 0 →
      ∃ words a s₁ sink s₂, arguments.mapM Input.text? = some words ∧
        Analyzes storage s options.input a s₁ ∧ Opens storage s₁ options.output sink s₂ ∧
        Delivered storage v ((Report.log words a.calls).pretty ++ "\n") sink s s₂ s' := by
  have hkept : v.held s' = v.held s → v.held s' out = some [] ∧ ∀ p, v.held s' p = v.held s p :=
    fun hheld => ⟨hheld ▸ hblank.empty, fun p => congrFun hheld p⟩
  unfold execute at hrun
  cases hparse : Request.parse arguments.tail with
  | run options =>
    rw [hparse] at hrun
    have hgoes := run_goes hstorage (haccepts options hparse) hrun
    refine ⟨fun hfailed => ?_, fun other hother hdone => ?_⟩
    · cases hgoes with
      | failed _ hheld => exact hkept hheld
      | done hexit => exact absurd hexit hfailed
    · obtain rfl : options = other := Request.run.inj hother
      cases hgoes with
      | failed hexit _ => exact absurd hdone hexit
      | done _ hwords hanalyzes hopens hwrote =>
        refine ⟨_, _, _, _, _, hwords, hanalyzes, hopens, ?_⟩
        exact delivered_of_wrote hstorage hblank hanalyzes hopens hwrote
  | help =>
    rw [hparse] at hrun
    obtain ⟨rfl, rfl⟩ := Prod.mk.inj hrun
    exact ⟨fun hfailed => absurd rfl hfailed, fun options hother => nomatch hother⟩
  | version =>
    rw [hparse] at hrun
    obtain ⟨rfl, rfl⟩ := Prod.mk.inj hrun
    exact ⟨fun hfailed => absurd rfl hfailed, fun options hother => nomatch hother⟩
  | invalid =>
    rw [hparse] at hrun
    obtain ⟨rfl, rfl⟩ := Prod.mk.inj hrun
    exact ⟨fun _ => hkept rfl, fun options hother => nomatch hother⟩

/-! ### Completing -/

theorem Analyzes.run_eq {input : Input} {a : Analysis} (h : Analyzes storage s input a s') :
    (analyze storage input).run s = (.ok a, s') := by
  obtain ⟨s₁, content, manifest, hlook, hread, hparse, hanalysis⟩ := h
  unfold analyze
  rw [run_bind hlook, if_pos rfl, run_bind hread]
  dsimp only
  rw [hparse]
  dsimp only
  rw [hanalysis]
  rfl

theorem Opens.run_eq {output : Option Input} {sink : Sink} (h : Opens storage s output sink s') :
    (openOutput storage output).run s = (.ok sink, s') := by
  unfold openOutput
  cases h with
  | unnamed => rfl
  | dash hpath =>
    dsimp only
    rw [if_pos (isStdout_iff.2 hpath)]
    rfl
  | file hpath hcreate =>
    dsimp only
    rw [if_neg (mt isStdout_iff.1 hpath), run_bind hcreate]
    rfl

/-- A run with something to report and an output for it completes, in any system. -/
theorem execute_completes {words : List String} {a : Analysis} {sink : Sink} {s₁ s₂ : σ}
    (hparse : Request.parse arguments.tail = .run options)
    (hwords : arguments.mapM Input.text? = some words)
    (hanalyzes : Analyzes storage s options.input a s₁)
    (hopens : Opens storage s₁ options.output sink s₂) (haccepts : Accepts storage sink) :
    ((execute storage arguments).run s).1.exitCode = 0 := by
  obtain ⟨s₃, hwrite, _⟩ := writeLine_goes haccepts s₂ (reportText words a)
  unfold execute
  rw [hparse]
  dsimp only [run]
  rw [run_bind hanalyzes.run_eq]
  dsimp only
  rw [hwords]
  dsimp only [deliver]
  rw [bind_assoc, run_bind hopens.run_eq]
  dsimp only
  rw [run_bind hwrite]
  rfl

end Command

end AnnotationGraph
