import AnnotationGraph.Program.Reference

/-!
# Contexts

A method is analyzed once for each context in which it is called.  The context of an annotation
lookup tells which object is asked and which annotation is sought.

* `Abstraction` — what is known of an object;
* `Lookup` — the object asked and the annotation sought;
* `Context` — a lookup, or none in particular;
* `Context.restriction?` — what a context says of a parameter.
-/

namespace AnnotationGraph

inductive Abstraction where
  | point (name : ClassName)
  | member (target : MethodRef)
  /-- an object of a class or of one of its sub classes -/
  | cone (name : ClassName)
  deriving DecidableEq

namespace Abstraction

def class? : Abstraction → Option ClassName
  | .point name => some name
  | .member _ | .cone _ => none

def text : Abstraction → String
  | .point name => "point<" ++ name ++ ">"
  | .member target => "member<" ++ target.text ++ ">"
  | .cone name => "cone<" ++ name ++ ">"

end Abstraction

structure Lookup where
  subject : Abstraction
  sought : Abstraction
  deriving DecidableEq

/-- The spelling of a lookup, which names the object asked alone. -/
def Lookup.text (l : Lookup) : String := "GetAnnotationContext<" ++ l.subject.text ++ ">"

inductive Context where
  | everywhere
  | lookup (l : Lookup)
  deriving DecidableEq

inductive Role where
  | receiver
  | caller
  | parameter (slot : Nat)
  deriving DecidableEq

inductive Restriction where
  | type (a : Abstraction)
  | only (name : ClassName)
  deriving DecidableEq

/-- What a lookup says of its receiver and its two parameters. -/
def Lookup.restriction? (l : Lookup) : Role → Option Restriction
  | .receiver => some (.type l.subject)
  | .parameter 0 => l.subject.class?.map .only
  | .parameter 1 => l.sought.class?.map .only
  | .parameter _ | .caller => none

namespace Context

def lookup? : Context → Option Lookup
  | .everywhere => none
  | .lookup l => some l

def restriction? (c : Context) (key : Role) : Option Restriction := c.lookup?.bind (·.restriction? key)

/-- What tells two contexts apart: only the object that is asked.  Lookups of several annotations on
one object count as one context. -/
def identity (c : Context) : Option Abstraction := c.lookup?.map Lookup.subject

def text : Context → String
  | .everywhere => "Everywhere"
  | .lookup l => l.text

end Context

end AnnotationGraph
