import AnnotationGraph.Command.FileTree
import AnnotationGraph.Proofs.Delivery

/-!
# Runs on a file tree

A machine in memory is a system of files: what it does is what a run relies on.  A text is held by
the file at its place or by the output, and devices hold nothing.

* `Machine.view`                 what there is to see of a machine;
* `Machine.storage_respects`     a machine does what a run relies on;
* `Machine.execute_delivers_reported`   a run over an older report.
-/

namespace AnnotationGraph

namespace FileTree

variable {t : FileTree} {p q : List Input}

/-! ### Places and contents -/

/-- There is a file at the place of a file, and none at a vacant place. -/
def Holds (t : FileTree) : Place → Prop
  | .file p => (t.files.lookup p).isSome = true
  | .vacant p => t.files.lookup p = none
  | .directory | .device _ | .nowhere => True

theorem holds_entry (t : FileTree) (here there : List Input) : t.Holds (t.entry here there) := by
  unfold entry
  cases Device.at? there with
  | some kind => trivial
  | none =>
    dsimp only
    by_cases hfile : (t.files.lookup there).isSome = true
    · rw [if_pos hfile]
      exact hfile
    · rw [if_neg hfile]
      split
      · trivial
      · exact Option.not_isSome_iff_eq_none.1 hfile

theorem holds_walk (t : FileTree) (steps : List Input) : ∀ here, t.Holds (t.walk here steps) := by
  induction steps with
  | nil => exact fun here => trivial
  | cons step rest ih =>
    intro here
    unfold walk
    split
    · exact ih here
    · split
      · exact ih here.dropLast
      · split
        · exact ih (here ++ [step])
        · split
          · exact t.holds_entry here (here ++ [step])
          · trivial

theorem holds_place (t : FileTree) (path : Input) : t.Holds (t.place path) := by
  unfold place
  split
  · exact t.holds_walk _ _
  · trivial

theorem lookup_cons_of_ne {r : List Input} {content : Input} {files : List (List Input × Input)}
    (h : q ≠ r) : ((r, content) :: files).lookup q = files.lookup q := by
  rw [List.lookup_cons, beq_false_of_ne h]

theorem lookup_modify_self (t : FileTree) (p : List Input) (change : Input → Input) :
    (t.modify p change).files.lookup p = (t.files.lookup p).map change := by
  unfold modify
  dsimp only
  induction t.files with
  | nil => rfl
  | cons f rest ih =>
    obtain ⟨r, content⟩ := f
    rw [List.map_cons]
    by_cases hr : r = p
    · subst hr
      rw [if_pos rfl, List.lookup_cons_self, List.lookup_cons_self]
      rfl
    · rw [if_neg hr, lookup_cons_of_ne (Ne.symm hr), lookup_cons_of_ne (Ne.symm hr), ih]

theorem lookup_modify_ne (t : FileTree) (change : Input → Input) (h : q ≠ p) :
    (t.modify p change).files.lookup q = t.files.lookup q := by
  unfold modify
  dsimp only
  induction t.files with
  | nil => rfl
  | cons f rest ih =>
    obtain ⟨r, content⟩ := f
    rw [List.map_cons]
    by_cases hr : r = p
    · subst hr
      rw [if_pos rfl, lookup_cons_of_ne h, lookup_cons_of_ne h, ih]
    · rw [if_neg hr, List.lookup_cons, List.lookup_cons, ih]

theorem lookup_add_self (content : Input) (h : t.files.lookup p = none) :
    (t.add p content).files.lookup p = some content := by
  unfold add
  rw [List.lookup_append, h, Option.none_or, List.lookup_cons_self]

theorem lookup_add_ne (t : FileTree) (content : Input) (h : q ≠ p) :
    (t.add p content).files.lookup q = t.files.lookup q := by
  unfold add
  rw [List.lookup_append, lookup_cons_of_ne h, List.lookup_nil, Option.or_none]

end FileTree

namespace Machine

/-! ### What a run relies on -/

inductive Holder where
  | stdout
  | file (place : List Input)
  deriving DecidableEq

def held (m : Machine) : Holder → Option Input
  | .stdout => some (.ofText m.shown)
  | .file place => m.tree.files.lookup place

def Sink.holder? : Sink → Option Holder
  | .stdout => some .stdout
  | .file place => some (.file place)
  | .device _ => none

def view : View Machine Sink Holder where
  held := held
  place? := Sink.holder?
  AtEnd _ _ := True

theorem changes_file {m : Machine} {tree : FileTree} {p : List Input}
    {change : Option Input → Option Input → Prop}
    (hchange : change (m.tree.files.lookup p) (tree.files.lookup p))
    (hothers : ∀ q, q ≠ p → tree.files.lookup q = m.tree.files.lookup q) :
    view.Changes (.file p) change m { m with tree := tree } := by
  refine ⟨trivial, fun holder hp => ?_, fun holder hp => ?_⟩
  · obtain rfl := Option.some.inj hp
    exact hchange
  · cases holder with
    | stdout => rfl
    | file q =>
      apply hothers
      rintro rfl
      exact hp rfl

theorem create?_spec (path : Input) (m : Machine) :
    (∃ p tree, create? path m = (some (.file p), { m with tree := tree }) ∧
        tree.files.lookup p = some [] ∧
        ∀ q, q ≠ p → tree.files.lookup q = m.tree.files.lookup q) ∨
      ∃ sink, create? path m = (sink, m) ∧ ∀ p, sink ≠ some (.file p) := by
  have hholds := m.tree.holds_place path
  unfold create?
  cases hplace : m.tree.place path with
  | file p =>
    rw [hplace] at hholds
    obtain ⟨content, hcontent⟩ := Option.isSome_iff_exists.1 hholds
    refine .inl ⟨p, _, rfl, ?_, fun q hq => FileTree.lookup_modify_ne _ _ hq⟩
    rw [FileTree.lookup_modify_self, hcontent]
    rfl
  | vacant p =>
    rw [hplace] at hholds
    refine .inl ⟨p, _, rfl, ?_, fun q hq => FileTree.lookup_add_ne _ _ hq⟩
    exact FileTree.lookup_add_self _ hholds
  | device kind =>
    obtain ⟨content, delivery⟩ := kind
    cases delivery <;> exact .inr ⟨_, rfl, fun p h => nomatch h⟩
  | directory => exact .inr ⟨_, rfl, fun p h => nomatch h⟩
  | nowhere => exact .inr ⟨_, rfl, fun p h => nomatch h⟩

theorem write_changes {sink : Sink} {text : String} {m m' : Machine}
    (h : write sink text m = (true, m')) :
    view.Changes sink (fun before after => after = before.map (· ++ .ofText text)) m m' := by
  cases sink with
  | stdout =>
    obtain ⟨-, rfl⟩ := Prod.mk.inj h
    refine ⟨trivial, fun holder hp => ?_, fun holder hp => ?_⟩
    · obtain rfl := Option.some.inj hp
      show some (Input.ofText (m.shown ++ text)) = some (Input.ofText m.shown ++ .ofText text)
      simp [Input.ofText]
    · cases holder with
      | stdout => exact absurd rfl hp
      | file q => rfl
  | file p =>
    obtain ⟨-, rfl⟩ := Prod.mk.inj h
    exact changes_file (FileTree.lookup_modify_self _ _ _)
      fun q hq => FileTree.lookup_modify_ne _ _ hq
  | device takes =>
    obtain ⟨-, rfl⟩ := Prod.mk.inj h
    exact ⟨trivial, fun p hp => absurd hp.symm (Option.some_ne_none p), fun p _ => rfl⟩

/-- A machine does what a run relies on. -/
theorem storage_respects : storage.Respects view where
  looks path m found m' h := by
    obtain ⟨-, rfl⟩ := Prod.mk.inj h
    exact ⟨rfl, rfl⟩
  reads path m content m' h := by
    obtain ⟨-, rfl⟩ := Prod.mk.inj h
    exact ⟨rfl, rfl⟩
  refuses path m m' h := by
    have hcreate : create? path m = (none, m') := h
    rcases create?_spec path m with ⟨p, tree, hfile, _⟩ | ⟨sink, hsame, _⟩
    · exact nomatch hcreate.symm.trans hfile
    · obtain ⟨-, rfl⟩ := Prod.mk.inj (hcreate.symm.trans hsame)
      rfl
  opens path m sink m' h := by
    have hcreate : create? path m = (some sink, m') := h
    rcases create?_spec path m with ⟨p, tree, hfile, hempty, hothers⟩ | ⟨opened, hsame, hsink⟩
    · obtain ⟨hsink, rfl⟩ := Prod.mk.inj (hcreate.symm.trans hfile)
      obtain rfl := Option.some.inj hsink
      exact changes_file (.inl hempty) hothers
    · obtain ⟨rfl, rfl⟩ := Prod.mk.inj (hcreate.symm.trans hsame)
      refine ⟨trivial, fun holder hp => .inr ⟨?_, rfl⟩, fun _ _ => rfl⟩
      cases sink with
      | stdout => rfl
      | file p => exact absurd rfl (hsink p)
      | device takes => exact nomatch hp
  writes sink text m m' _ h := write_changes h

/-! ### Outputs -/

open Command (Accepts Analyzes Blank Delivered Opens OutputAccepts)

theorem accepts {sink : Sink} (h : sink ≠ .device false) : Accepts storage sink := by
  intro text m
  cases sink with
  | stdout => rfl
  | file p => rfl
  | device takes =>
    cases takes with
    | false => exact absurd rfl h
    | true => rfl

theorem outputAccepts {arguments : List Input} {options : Options} {m : Machine}
    (hparse : Request.parse arguments.tail = .run options)
    (h : ∀ path, options.output = some path → (create? path m).1 ≠ some (.device false)) :
    ∀ other, Request.parse arguments.tail = .run other → OutputAccepts storage other m := by
  intro other hother a m₁ sink m₂ hanalyzes hopens
  obtain rfl : options = other := Request.run.inj (hparse.symm.trans hother)
  obtain ⟨_, _, _, hlook, hread, _⟩ := hanalyzes
  obtain ⟨-, rfl⟩ := Prod.mk.inj hlook
  obtain ⟨-, rfl⟩ := Prod.mk.inj hread
  apply accepts
  rintro rfl
  generalize houtput : options.output = output at hopens
  cases hopens with
  | file _ hcreate => exact h _ houtput (congrArg Prod.fst hcreate)

def reported : Machine :=
  ⟨.ofLists [] [("in.json", "\x7b\x7d"), ("report.sarif", "an old report")], ""⟩

def commandLine (words : List String) : List Input := ("./annoscope" :: words).map .ofText

theorem reported_blank : Blank storage view .stdout reported := ⟨rfl, rfl, trivial⟩

/-- The report of the manifest replaces the older one, which stays if it is taken for a manifest
itself. -/
theorem execute_delivers_reported :
    (∃ words a m₁ sink m₂,
      (commandLine ["--input", "in.json", "--output", "./report.sarif"]).mapM Input.text?
        = some words ∧
      Analyzes storage reported (.ofText "in.json") a m₁ ∧
      Opens storage m₁ (some (.ofText "./report.sarif")) sink m₂ ∧
      Delivered storage view ((Report.log words a.calls).pretty ++ "\n") sink reported m₂
        ((Command.execute storage
          (commandLine ["--input", "in.json", "--output", "./report.sarif"])).run reported).2) ∧
    ∀ holder, view.held ((Command.execute storage
        (commandLine ["--input", "report.sarif", "--output", "report.sarif"])).run reported).2 holder
      = view.held reported holder := by
  have hwrites : Request.parse
      (commandLine ["--input", "in.json", "--output", "./report.sarif"]).tail
      = .run ⟨.ofText "in.json", some (.ofText "./report.sarif"), false, false⟩ := by
    decide +kernel
  have hfails : Request.parse
      (commandLine ["--input", "report.sarif", "--output", "report.sarif"]).tail
      = .run ⟨.ofText "report.sarif", some (.ofText "report.sarif"), false, false⟩ := by
    decide +kernel
  constructor
  · have haccepts := outputAccepts (m := reported) hwrites (by rintro path ⟨⟩; decide +kernel)
    have hdelivers :=
      Command.execute_delivers storage_respects reported_blank haccepts (Prod.eta _).symm
    exact hdelivers.2 _ hwrites (by decide +kernel)
  · have haccepts := outputAccepts (m := reported) hfails (by rintro path ⟨⟩; decide +kernel)
    have hdelivers :=
      Command.execute_delivers storage_respects reported_blank haccepts (Prod.eta _).symm
    exact (hdelivers.1 (by decide +kernel)).2

/-- The output of the run has a path, too: the report is shown although the path is not a dash. -/
theorem execute_shows_device :
    Request.parse (commandLine ["--input", "in.json", "--output", "/dev/stdout"]).tail
      = .run ⟨.ofText "in.json", some (.ofText "/dev/stdout"), false, false⟩ ∧
    ¬ IsDash (.ofText "/dev/stdout") ∧
    ((Command.execute storage
      (commandLine ["--input", "in.json", "--output", "/dev/stdout"])).run reported).1.exitCode = 0 ∧
    ((Command.execute storage
      (commandLine ["--input", "in.json", "--output", "/dev/stdout"])).run reported).2.shown ≠ "" := by
  rw [← Command.isStdout_iff]
  decide +kernel

end Machine

end AnnotationGraph
