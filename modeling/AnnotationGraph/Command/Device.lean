import AnnotationGraph.Json.Input

/-!
# Devices

Files of the machine in memory that keep nothing: what is read from them and what becomes of a text
that is written to them is fixed by their kind.

* `Device` — a kind;
* `Device.at?` — the device at a path.
-/

namespace AnnotationGraph

inductive Delivery where
  | taken
  | shown
  /-- it cannot be opened -/
  | refused
  /-- it opens and takes no text -/
  | failed
  deriving DecidableEq

/-- A file that keeps nothing. -/
structure Device where
  /-- what is read up to the end, if the end is ever reached -/
  content : Option String
  delivery : Delivery
  deriving DecidableEq

namespace Device

def null : Device := ⟨some "", .taken⟩

def endless : Device := ⟨none, .taken⟩

def full : Device := ⟨none, .failed⟩

def standardOutput : Device := ⟨none, .shown⟩

/-- The terminal, which a run without one cannot open. -/
def terminal : Device := ⟨none, .refused⟩

def streamPaths (name number : String) : List (List String) :=
  [["dev", name], ["dev", "fd", number], ["proc", "self", "fd", number]]

/-- All devices by their paths from the root.  The input of a run is empty, and what is written beside
its output is not part of the outcome. -/
def table : List (List String × Device) :=
  [(["dev", "null"], null), (["dev", "zero"], endless), (["dev", "random"], endless),
    (["dev", "urandom"], endless), (["dev", "full"], full), (["dev", "tty"], terminal)]
  ++ (streamPaths "stdin" "0").map (·, null)
  ++ (streamPaths "stdout" "1").map (·, standardOutput)
  ++ (streamPaths "stderr" "2").map (·, endless)

def at? (path : List Input) : Option Device := do table.lookup (← path.mapM Input.text?)

end Device

end AnnotationGraph
