import AnnotationGraph.Json.Input

/-!
# Paths

A path is walked step by step.  Slashes stand between the steps, so a path that begins or ends with
a slash has an empty first or last step.  Steps and whole paths have a greatest length.

* `pathSteps` — the steps of a path;
* `components` — those that count, which tell whether two paths are equal.
-/

namespace AnnotationGraph

def pathSteps (path : Input) : List Input := path.splitOn (.char '/')

def maxStepBytes : Nat := 255

def maxPathBytes : Nat := 4095

/-- Whether neither a path nor one of its steps is too long to lead anywhere. -/
def pathFits (path : Input) : Bool :=
  path.size ≤ maxPathBytes && (pathSteps path).all fun step => step.size ≤ maxStepBytes

/-! ### Components -/

inductive Component where
  | root
  | here
  | above
  | name (text : Input)
  deriving DecidableEq

def Component.ofStep? (step : Input) : Option Component :=
  if step = [] ∨ step = .ofText "." then none
  else if step = .ofText ".." then some .above
  else some (.name step)

/-- The components of a path.  Slashes in a row count as one, and a dot counts in front only. -/
def components (path : Input) : List Component :=
  match pathSteps path with
  | [] => []
  | first :: rest =>
    let front :=
      if first = [] then if rest.isEmpty then [] else [.root]
      else if first = .ofText "." then [.here]
      else (Component.ofStep? first).toList
    front ++ rest.filterMap Component.ofStep?

def fileName? (path : Input) : Option Input :=
  match (components path).getLast? with
  | some (.name text) => some text
  | _ => none

end AnnotationGraph
