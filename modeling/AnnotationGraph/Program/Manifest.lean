import AnnotationGraph.Program.Reader

/-!
# Accepted manifests

A manifest is accepted if every class has a name of its own.  Its classes are put in the order of
their names before anything is checked, so neither the result nor the complaint depends on the order
in which they were given.

* `Manifest.accept` — the check;
* `Manifest.parse` — a text read and checked.
-/

namespace AnnotationGraph

namespace Manifest

inductive Error where
  | malformed
  | emptyName
  | duplicate (name : ClassName)
  deriving DecidableEq

def Error.message : Error → String
  | .malformed => "invalid manifest JSON"
  | .emptyName => "class with empty name"
  | .duplicate name => "duplicate class " ++ name

def insertByName (c : Class) : List Class → List Class
  | [] => [c]
  | d :: rest =>
    if compare c.name d.name = .gt then d :: insertByName c rest else c :: d :: rest

/-- The classes in the order of their names; equal names keep their order. -/
def sorted (classes : List Class) : List Class := classes.foldr insertByName []

def complaint? : List Class → Option Error
  | [] => none
  | c :: rest =>
    if c.name = "" then some .emptyName
    else
      match rest with
      | [] => none
      | d :: _ => if c.name = d.name then some (.duplicate c.name) else complaint? rest

/-- The classes in the order of their names, if each has a name of its own. -/
def accept (m : Manifest) : Except Error Manifest :=
  let classes := sorted m.classes
  match complaint? classes with
  | none => .ok ⟨classes⟩
  | some e => .error e

def parse (input : Input) : Except Error Manifest :=
  match read? input with
  | none => .error .malformed
  | some m => m.accept

end Manifest

end AnnotationGraph
