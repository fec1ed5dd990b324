import AnnotationGraph.Command.Basic
import AnnotationGraph.Command.Device

/-!
# A file tree

A small machine in memory on which the program runs.  A place in its tree is the list of the names on
the way to it from the root.  There are no links, so two dots take back the last name, and every file
can be read and written.

* `FileTree` — the files and directories;
* `FileTree.ofLists` — a tree with given content in the directory where the program runs;
* `FileTree.place` — where a path leads;
* `Machine.storage` — the operations of a run on a tree and an output;
* `FileTree.execute` — a run with the tree that it leaves.
-/

namespace AnnotationGraph

/-- The files and directories of a machine by their places.  The root is always there. -/
structure FileTree where
  directories : List (List Input)
  files : List (List Input × Input)
  deriving DecidableEq

inductive Place where
  | directory
  | device (kind : Device)
  | file (place : List Input)
  /-- the place of a new file in a directory -/
  | vacant (place : List Input)
  | nowhere
  deriving DecidableEq

namespace FileTree

def workplace : List Input := ["tmp", "work"].map .ofText

/-- The tree that the program finds before anything is put into its directory: the usual directories
and the list of users. -/
def bare : FileTree where
  directories := (["bin", "boot", "dev", "etc", "home", "lib", "media", "mnt", "opt", "proc", "root",
      "run", "sbin", "srv", "sys", "tmp", "usr", "var"].map fun name => [.ofText name])
    ++ [["dev", "fd"], ["dev", "shm"], ["proc", "self"], ["proc", "self", "fd"], ["usr", "bin"],
      ["usr", "lib"], ["var", "tmp"], ["tmp", "work"]].map (List.map .ofText)
  files := [(["etc", "passwd"].map .ofText, .ofText "root:x:0:0:root:/root:/bin/sh\n")]

/-- Where the steps of a path start: at the root if there is a slash in front. -/
def start : List Input → List Input
  | [] :: _ => []
  | _ => workplace

/-- Whether a directory shows the state of the machine.  What stands there is not for a run to
change, so it has no place for a new file. -/
def showsState (directory : List Input) : Bool :=
  match directory.map Input.text? with
  | some "proc" :: _ | some "sys" :: _ | [some "dev", some "fd"] => true
  | _ => false

/-! ### Where paths lead -/

def entry (t : FileTree) (here there : List Input) : Place :=
  match Device.at? there with
  | some kind => .device kind
  | none =>
    if (t.files.lookup there).isSome then .file there
    else if showsState here then .nowhere
    else .vacant there

/-- Where steps lead from a directory.  The root is above itself, and a file has no steps below it,
not even an empty one. -/
def walk (t : FileTree) (here : List Input) : List Input → Place
  | [] => .directory
  | step :: rest =>
    if step = [] ∨ step = .ofText "." then walk t here rest
    else if step = .ofText ".." then walk t here.dropLast rest
    else if t.directories.contains (here ++ [step]) then walk t (here ++ [step]) rest
    else if rest.isEmpty then t.entry here (here ++ [step])
    else .nowhere

/-- Where a path leads.  The empty path leads nowhere, and so does one that is too long or has too
long a step. -/
def place (t : FileTree) (path : Input) : Place :=
  if path ≠ [] ∧ pathFits path then t.walk (start (pathSteps path)) (pathSteps path) else .nowhere

def exists? (t : FileTree) (path : Input) : Bool :=
  match t.place path with
  | .directory | .device _ | .file _ => true
  | .vacant _ | .nowhere => false

def content? (t : FileTree) (path : Input) : Option Input :=
  match t.place path with
  | .file place => t.files.lookup place
  | .device kind => kind.content.map .ofText
  | .directory | .vacant _ | .nowhere => none

def read? (t : FileTree) (path : String) : Option String :=
  (t.content? (.ofText path)).bind Input.text?

/-! ### Changing files -/

def modify (t : FileTree) (place : List Input) (change : Input → Input) : FileTree :=
  { t with files := t.files.map fun f => if f.1 = place then (place, change f.2) else f }

def add (t : FileTree) (place : List Input) (content : Input) : FileTree :=
  { t with files := t.files ++ [(place, content)] }

def withDirectories (t : FileTree) (here : List Input) : List Input → FileTree
  | [] => t
  | step :: rest =>
    if step = [] ∨ step = .ofText "." then t.withDirectories here rest
    else if step = .ofText ".." then t.withDirectories here.dropLast rest
    else
      let there := here ++ [step]
      if t.directories.contains there then t.withDirectories there rest
      else { t with directories := t.directories ++ [there] }.withDirectories there rest

def withDirectory (t : FileTree) (path : Input) : FileTree :=
  t.withDirectories (start (pathSteps path)) (pathSteps path)

def withFile (t : FileTree) (path content : Input) : FileTree :=
  let t := t.withDirectories (start (pathSteps path)) (pathSteps path).dropLast
  match t.place path with
  | .file place => t.modify place fun _ => content
  | .vacant place => t.add place content
  | .directory | .device _ | .nowhere => t

/-- The tree with directories and files at some paths.  Of two files at one place the later stays. -/
def ofLists (directories : List String) (files : List (String × String)) : FileTree :=
  files.foldl (fun t f => t.withFile (.ofText f.1) (.ofText f.2))
    (directories.foldl (fun t d => t.withDirectory (.ofText d)) bare)

end FileTree

/-! ### Running -/

structure Machine where
  tree : FileTree
  shown : String
  deriving DecidableEq

inductive Machine.Sink where
  | stdout
  | file (place : List Input)
  /-- a device that keeps nothing of what it takes, if it takes anything -/
  | device (takes : Bool)
  deriving DecidableEq

namespace Machine

def create? (path : Input) (m : Machine) : Option Sink × Machine :=
  match m.tree.place path with
  | .file place => (some (.file place), { m with tree := m.tree.modify place fun _ => [] })
  | .vacant place => (some (.file place), { m with tree := m.tree.add place [] })
  | .device ⟨_, .taken⟩ => (some (.device true), m)
  | .device ⟨_, .failed⟩ => (some (.device false), m)
  | .device ⟨_, .shown⟩ => (some .stdout, m)
  | .device ⟨_, .refused⟩ => (none, m)
  | .directory | .nowhere => (none, m)

def write (sink : Sink) (text : String) (m : Machine) : Bool × Machine :=
  match sink with
  | .stdout => (true, { m with shown := m.shown ++ text })
  | .file place => (true, { m with tree := m.tree.modify place (· ++ .ofText text) })
  | .device takes => (takes, m)

def storage : Storage (StateM Machine) Sink where
  exists? path := return (← get).tree.exists? path
  read? path := return (← get).tree.content? path
  stdout := .stdout
  create? path := modifyGet (create? path)
  write sink text := modifyGet (write sink text)

end Machine

structure Outcome extends Ending where
  stdout : String
  deriving DecidableEq

/-- A run on a tree under the name of the program, with the tree that it leaves. -/
def FileTree.execute (t : FileTree) (arguments : List String) : Outcome × FileTree :=
  let arguments := (Report.toolName :: arguments).map .ofText
  let (ending, m) := (Command.execute Machine.storage arguments).run ⟨t, ""⟩
  (⟨ending, m.shown⟩, m.tree)

end AnnotationGraph
