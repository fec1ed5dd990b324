import AnnotationGraph.Graph.Exploration

/-!
# The analysis of a program

All calls inside the analyzed classes are followed, class by class in the order of their names.  Then
every call of a lookup for which there is a body is reported, in the order of the edges.

* `ReportedCall` — a reported call;
* `Analysis` — all that is reported, with counts;
* `Analysis.run` — the analysis of a list of classes.
-/

namespace AnnotationGraph

structure ReportedCall where
  caller : MethodRef
  offset : UInt32
  subject : Abstraction
  sought : Abstraction
  /-- the number of the body; calls with one number share it -/
  bodyId : Nat
  body : Body
  deriving DecidableEq

/-- The result of an analysis. -/
structure Analysis where
  calls : List ReportedCall
  classCount : Nat
  nodeCount : Nat
  edgeCount : Nat
  standInCount : Nat
  warnings : List Warning
  deriving DecidableEq

namespace Analysis

inductive Error where
  | step (e : Exploration.Error)
  | missingCaller (id : Nat)
  /-- a body was made under a context that is no lookup -/
  | noLookup (method : MethodRef)
  deriving DecidableEq

def Error.message : Error → String
  | .step e => e.message
  | .missingCaller id => "missing caller node NodeId(" ++ toString id ++ ")"
  | .noLookup m => "body of " ++ m.text ++ " lacks a get-annotation context"

def followCalls (caller : Nat) (x : Exploration) (calls : List Call) :
    Except Exploration.Error Exploration :=
  calls.foldlM (fun x call => (x.follow caller call).map Prod.snd) x

def followMethod (c : Class) (x : Exploration) (m : Method) :
    Except Exploration.Error Exploration :=
  let (caller, x) := x.enter (c.methodRef m)
  followCalls caller x m.calls

def followClass (x : Exploration) (c : Class) : Except Exploration.Error Exploration :=
  c.methods.foldlM (followMethod c) x

def report (x : Exploration) (e : Edge) : Except Error (Option ReportedCall × Exploration) :=
  match x.body e.callee with
  | (.error err, _) => .error (.step err)
  | (.ok none, x) => .ok (none, x)
  | (.ok (some (bodyId, body)), x) =>
    match x.graph.node? e.caller, body.context.lookup? with
    | none, _ => .error (.missingCaller e.caller)
    | some _, none => .error (.noLookup body.method)
    | some caller, some l =>
      .ok (some ⟨caller.method, e.offset, l.subject, l.sought, bodyId, body⟩, x)

def reportAll (x : Exploration) : List Edge → Except Error (List ReportedCall × Exploration)
  | [] => .ok ([], x)
  | e :: rest => do
    let (call, x) ← report x e
    let (calls, x) ← reportAll x rest
    return (call.toList ++ calls, x)

def run (classes : List Class) : Except Error Analysis := do
  let h := Hierarchy.ofClasses classes
  let targets := h.program.toList.filter Class.analyzed
  let explored ← (targets.foldlM followClass (.start .standard h)).mapError Error.step
  let edges := explored.graph.edges.keys
  let (calls, final) ← reportAll explored edges
  return {
    calls
    classCount := targets.length
    nodeCount := final.graph.size
    edgeCount := edges.length
    standInCount := final.synthesizer.standInCount
    warnings := final.synthesizer.warnings }

end Analysis

end AnnotationGraph
