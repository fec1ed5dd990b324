import AnnotationGraph.Lookup.Operation
import AnnotationGraph.Program.Class

/-!
# The class hierarchy

The classes of a program, completed by those of the platform, and the classes made up while the
program is analyzed.

* `ClassSpace` — classes under their own names;
* `Hierarchy` — the two spaces; a name is sought among the program's classes first;
* `Hierarchy.ofClasses` — the hierarchy of a program;
* `Hierarchy.register` — adds a made-up class unless there is one of that name;
* `Hierarchy.resolve?` — the method that a call runs, found along the chain of super classes.
-/

namespace AnnotationGraph

structure ClassSpace where
  classes : OrderedMap ClassName Class
  named : ∀ e ∈ classes.entries, e.2.name = e.1

namespace ClassSpace

def empty : ClassSpace := ⟨.empty, by simp [OrderedMap.empty]⟩

def lookup? (s : ClassSpace) (name : ClassName) : Option Class := s.classes.get? name

def size (s : ClassSpace) : Nat := s.classes.size

def toList (s : ClassSpace) : List Class := s.classes.values

def insert (s : ClassSpace) (c : Class) : ClassSpace where
  classes := s.classes.insert c.name c
  named := by
    intro e he
    rcases OrderedMap.mem_of_mem_put he with rfl | he
    · rfl
    · exact s.named e he

/-- Puts a class unless there is one of the same name. -/
def insertNew (s : ClassSpace) (c : Class) : ClassSpace :=
  if (s.lookup? c.name).isSome then s else s.insert c

theorem eq_of_classes {s t : ClassSpace} (h : s.classes = t.classes) : s = t := by
  cases s; cases t; cases h; rfl

end ClassSpace

/-! ### Classes of the platform -/

def platformClass (name : ClassName) (superName : Option ClassName) (methods : List Method) :
    Class where
  name
  superName
  interfaces := []
  annotations := []
  fields := []
  methods
  analyzed := false

def Operation.declaration : Method where
  name := methodName
  descriptor := descriptor
  access := { isPublic := true, isStatic := false, isAbstract := false }
  calls := []

def platformClasses : List Class :=
  [ platformClass objectClass none [],
    platformClass stringClass (some objectClass) [],
    platformClass integerClass (some objectClass) [],
    platformClass booleanClass (some objectClass) [],
    platformClass enumClass (some objectClass) [],
    platformClass markerInterface none [] ]
  ++ Operation.all.map fun op =>
    platformClass op.owner (some objectClass) [Operation.declaration]

/-! ### The hierarchy -/

/-- The classes of a program and those made up during its analysis. -/
structure Hierarchy where
  program : ClassSpace
  standIns : ClassSpace

namespace Hierarchy

/-- The hierarchy of a program.  Of two classes with one name the later counts, and a class of the
program counts before a platform class. -/
def ofClasses (classes : List Class) : Hierarchy where
  program := platformClasses.foldl .insertNew (classes.foldl .insert .empty)
  standIns := .empty

def lookup? (h : Hierarchy) (name : ClassName) : Option Class :=
  h.program.lookup? name <|> h.standIns.lookup? name

def method? (h : Hierarchy) (m : MethodRef) : Option Method := do
  (← h.lookup? m.owner).method? m.name m.descriptor

def super? (h : Hierarchy) (c : Class) : Option Class := c.superName.bind h.lookup?

def size (h : Hierarchy) : Nat := h.program.size + h.standIns.size

/-- Adds a made-up class unless there is one of that name, and gives the one that is there. -/
def register (h : Hierarchy) (c : Class) : Class × Hierarchy :=
  match h.standIns.lookup? c.name with
  | some d => (d, h)
  | none => (c, { h with standIns := h.standIns.insert c })

/-- The declaration of a method in the first of a class and its super classes that has one, within a
number of steps up. -/
def resolveFrom? (h : Hierarchy) (m : MethodRef) : Nat → Option Class → Option MethodRef
  | _, none => none
  | steps, some c =>
    if (c.method? m.name m.descriptor).isSome then some { m with owner := c.name }
    else
      match steps with
      | 0 => none
      | steps + 1 => resolveFrom? h m steps (h.super? c)

/-- The method that a reference means: the declaration in its class or the nearest super class.  A
chain that does not end comes back to a class it has been at within as many steps as there are
classes. -/
def resolve? (h : Hierarchy) (m : MethodRef) : Option MethodRef :=
  h.resolveFrom? m h.size (h.lookup? m.owner)

end Hierarchy

end AnnotationGraph
