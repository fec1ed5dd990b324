import AnnotationGraph.Body.Basic
import AnnotationGraph.Graph.Basic
import AnnotationGraph.Hierarchy
import AnnotationGraph.Lookup.StandIn
import AnnotationGraph.Program.Descriptor

/-!
# Bodies for annotation lookups

A lookup on the object of a class whose annotations are known gets a body of its own: it allocates
the stand-in for the annotation that is found, writes its arguments into the fields and gives the
object back.  If nothing is found the body does nothing.

* `Synthesizer` — the hierarchy, the bodies and stand-ins made so far, and the warnings given;
* `Hierarchy.finding` — what a lookup finds;
* `Synthesizer.body` — the body for a node, made when it is first asked for;
* `Fault` — why there is none.

Bodies are numbered as they are made; two queries share a body exactly if they give the same number.
-/

namespace AnnotationGraph

inductive Fault where
  | foreign (node : Node)
  /-- a parameter of the lookup is not known to be of one class -/
  | unpinned (lookup : Lookup) (slot : Nat)
  | badDescriptor (descriptor : String)
  /-- the stand-in that was registered first has no field for an argument -/
  | missingField (standIn : ClassName) (field : String)
  deriving DecidableEq

def Fault.message : Fault → String
  | .foreign node => "get-annotation interpreter does not understand " ++ node.text
  | .unpinned lookup slot =>
    lookup.text ++ " does not pin parameter " ++ toString slot ++ " to a single class"
  | .badDescriptor descriptor => "invalid method descriptor " ++ descriptor
  | .missingField standIn field => "synthetic class " ++ standIn ++ " has no field " ++ field

/-- What deserves a warning although there is a body. -/
inductive Warning where
  | subjectNotFound (name : ClassName)
  | soughtNotFound (name : ClassName)
  deriving DecidableEq

def Warning.message : Warning → String
  | .subjectNotFound name => "getAnnotation subject class not found class=" ++ name
  | .soughtNotFound name => "getAnnotation annotation class not found class=" ++ name

/-! ### What a lookup finds -/

inductive Finding where
  | subjectNotFound
  | soughtNotFound
  | absent
  | found (use : AnnotationUse)

/-- What a lookup of an annotation on a class finds.  Of several annotations of one type the first
counts. -/
def Hierarchy.finding (h : Hierarchy) (subject sought : ClassName) : Finding :=
  match h.lookup? subject with
  | none => .subjectNotFound
  | some c =>
    if (h.lookup? sought).isNone then .soughtNotFound
    else
      match c.use? sought with
      | none => .absent
      | some use => .found use

/-- The class of which a parameter of a lookup is known to be. -/
def Lookup.pinned (l : Lookup) (slot : Nat) : Except Fault ClassName :=
  match l.restriction? (.parameter slot) with
  | some (.only name) => .ok name
  | _ => .error (.unpinned l slot)

/-- The lookup of a node for which bodies are made. -/
def Node.modeled? (n : Node) : Option Lookup :=
  match Operation.of? n.method with
  | some op => if op.hasBody then n.context.lookup? else none
  | none => none

/-! ### Instructions -/

/-- The first value number after those of the receiver and the parameters, which count from one. -/
def Hierarchy.firstFree (h : Hierarchy) (m : MethodRef) : Except Fault Nat :=
  match Descriptor.parameterCount? m.descriptor with
  | none => .error (.badDescriptor m.descriptor)
  | some n =>
    let static := (h.method? m).any fun m => m.access.isStatic
    .ok (1 + (if static then 0 else 1) + n)

/-- The instructions that write arguments into the fields of an object, from an index on.  The
operand of each is numbered as far after the object as its index says. -/
def writes (c : Class) (object : Nat) :
    Nat → List (String × Element) → Except Fault (List Instruction)
  | _, [] => .ok []
  | index, (name, _) :: arguments =>
    match c.field? name with
    | none => .error (.missingField c.name name)
    | some f => do
      let rest ← writes c object (index + 1) arguments
      return ⟨index, .put object (object + index) (c.fieldRef f)⟩ :: rest

def constantTexts : Nat → List (String × Element) → List (Nat × String)
  | _, [] => []
  | value, (_, e) :: arguments => (value, e.text) :: constantTexts (value + 1) arguments

def instructionsFor (c : Class) (object : Nat) (arguments : List (String × Element)) :
    Except Fault (List Instruction) := do
  let puts ← writes c object 1 arguments
  return ⟨0, .new object ⟨0, c.name⟩⟩ :: puts ++ [⟨arguments.length + 1, .leave (some object)⟩]

/-! ### The synthesizer -/

/-- The hierarchy with all that was made for lookups so far. -/
structure Synthesizer where
  hierarchy : Hierarchy
  /-- the bodies in the order in which they were made, each under its key -/
  bodies : List (String × Body)
  /-- the stand-ins in the order in which they were made, by subject and annotation type -/
  standIns : List ((ClassName × ClassName) × Class)
  warnings : List Warning

def Synthesizer.ofHierarchy (h : Hierarchy) : Synthesizer := ⟨h, [], [], []⟩

/-- The text under which the body for a node is kept. -/
def Node.bodyKey (n : Node) (l : Lookup) : String :=
  n.method.text ++ "@" ++ l.text ++ "#" ++ l.sought.text

namespace Synthesizer

def standInCount (s : Synthesizer) : Nat := s.standIns.length

def kept? (s : Synthesizer) (key : String) : Option (Nat × Body) := do
  let id ← s.bodies.findIdx? (·.1 = key)
  let (_, body) ← s.bodies[id]?
  return (id, body)

def warn (s : Synthesizer) (w : Warning) : Synthesizer := { s with warnings := s.warnings ++ [w] }

/-- The stand-in for an annotation on a subject, made when it is first asked for.  A class that was
registered under its name before takes its place. -/
def standIn (s : Synthesizer) (subject : ClassName) (use : AnnotationUse) : Class × Synthesizer :=
  match s.standIns.lookup (subject, use.type) with
  | some c => (c, s)
  | none =>
    let (c, h) := s.hierarchy.register (StandIn.ofUse subject use)
    (c, { s with hierarchy := h, standIns := s.standIns ++ [((subject, use.type), c)] })

def bodyOf (s : Synthesizer) (node : Node) (subject : ClassName) (use : AnnotationUse) :
    Except Fault Body × Synthesizer :=
  let (c, s) := s.standIn subject use
  let body := do
    let object ← s.hierarchy.firstFree node.method
    let arguments := use.arguments.entries
    return {
      method := node.method
      context := node.context
      code := .ofInstructions (← instructionsFor c object arguments)
      constants := .ofList (constantTexts (object + 1) arguments) }
  (body, s)

def synthesize (s : Synthesizer) (node : Node) (l : Lookup) : Except Fault Body × Synthesizer :=
  match l.pinned 0, l.pinned 1 with
  | .error e, _ => (.error e, s)
  | .ok _, .error e => (.error e, s)
  | .ok subject, .ok sought =>
    let nothing := Body.empty node.method node.context
    match s.hierarchy.finding subject sought with
    | .subjectNotFound => (.ok nothing, s.warn (.subjectNotFound subject))
    | .soughtNotFound => (.ok nothing, s.warn (.soughtNotFound sought))
    | .absent => (.ok nothing, s)
    | .found use => s.bodyOf node subject use

/-- The body for a node and its number.  A body that was made is kept; a fault is not. -/
def body (s : Synthesizer) (node : Node) : Except Fault (Nat × Body) × Synthesizer :=
  match node.modeled? with
  | none => (.error (.foreign node), s)
  | some l =>
    let key := node.bodyKey l
    match s.kept? key with
    | some known => (.ok known, s)
    | none =>
      match s.synthesize node l with
      | (.error e, s) => (.error e, s)
      | (.ok body, s) => (.ok (s.bodies.length, body), { s with bodies := s.bodies ++ [(key, body)] })

/-! ### Queries about a body -/

def statementCount (s : Synthesizer) (node : Node) : Except Fault Nat × Synthesizer :=
  let (result, s) := s.body node
  (result.map fun (_, body) => body.instructions.length, s)

def flow (s : Synthesizer) (node : Node) : Except Fault FlowGraph × Synthesizer :=
  let (result, s) := s.body node
  (result.map fun (_, body) => body.flow, s)

def defUse (s : Synthesizer) (node : Node) : Except Fault DefUse × Synthesizer :=
  let (result, s) := s.body node
  (result.map fun (_, body) => body.defUse, s)

end Synthesizer

structure Summary where
  allocations : List AllocationSite
  calls : List Call
  fieldsRead : List FieldRef
  fieldsWritten : List FieldRef
  deriving DecidableEq

/-- The summary of a lookup is empty: what its body does is seen in the instructions alone. -/
def Node.summary (n : Node) : Except Fault Summary :=
  match n.modeled? with
  | none => .error (.foreign n)
  | some _ => .ok ⟨[], [], [], []⟩

/-- Whether a node is known to make objects of a class on behalf of its callers, which no lookup
is. -/
def Node.makes (_ : Node) (_ : ClassName) : Bool := false

end AnnotationGraph
