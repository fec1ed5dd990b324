import AnnotationGraph.Command.Arguments
import AnnotationGraph.Command.Path
import AnnotationGraph.Program.Manifest
import AnnotationGraph.Report

/-!
# The program

What a run does with the files of a system: the manifest is read, checked and analyzed before the
place of the report is opened, so a run that fails leaves an older report as it was.

* `Storage` — the files that a run can reach, in any monad;
* `Ending` — how a run ends;
* `Command.execute` — a run.
-/

namespace AnnotationGraph

/-- What a run does with files and with its output.  What is open for writing is a sink. -/
structure Storage (m : Type → Type) (Sink : Type) where
  exists? : Input → m Bool
  read? : Input → m (Option Input)
  stdout : Sink
  /-- opens a file, with nothing left in it, or a new one -/
  create? : Input → m (Option Sink)
  /-- writes a text after what was written, and tells whether it could -/
  write : Sink → String → m Bool

inductive RunError where
  | inputNotFound (path : Input)
  | unreadable (path : Input)
  | notParsed (path : Input) (cause : Manifest.Error)
  | notAnalyzed (cause : Analysis.Error)
  | notOpened (path : Input)
  | notSerialized
  | notWritten
  deriving DecidableEq

def RunError.message : RunError → String
  | .inputNotFound path => "input not found: " ++ path.shown
  | .unreadable path => "failed to read " ++ path.shown
  | .notParsed path _ => "failed to parse " ++ path.shown
  | .notAnalyzed cause => cause.message
  | .notOpened path => "failed to open " ++ path.shown
  | .notSerialized => "failed to serialize SARIF output"
  | .notWritten => "failed to write SARIF output"

structure Ending where
  exitCode : UInt32
  warnings : List String
  error : Option String
  timing : Option String
  deriving DecidableEq

namespace Ending

def failed (warnings : List String) (e : RunError) : Ending := ⟨1, warnings, some e.message, none⟩

/-- The ending of a run with arguments that are no text. -/
def aborted (warnings : List String) : Ending := ⟨101, warnings, none, none⟩

def misused : Ending := ⟨2, [], none, none⟩

def answered : Ending := ⟨0, [], none, none⟩

end Ending

namespace Command

def versionText : String := Report.toolName ++ " 0.1.0\n"

def helpText (name : String) : String :=
  "Call graph modeling of reflective getAnnotation lookups, reported as SARIF.\n"
    ++ "\n"
    ++ "Usage: " ++ name ++ " [OPTIONS] --input <PATH>\n"
    ++ "\n"
    ++ "Options:\n"
    ++ "      --input <PATH>   JSON program manifest to analyze\n"
    ++ "      --output <PATH>  \n"
    ++ "      --quiet          \n"
    ++ "      --timing         \n"
    ++ "  -h, --help           Print help\n"
    ++ "  -V, --version        Print version\n"

def calledAs (arguments : List Input) : String :=
  ((arguments.head?.bind fileName?).bind Input.text?).getD Report.toolName

/-- Whether a path stands for the output of the run, which a dash does. -/
def isStdout (path : Input) : Bool := components path = components (.ofText "-")

def reportText (arguments : List String) (a : Analysis) : String :=
  (Report.log arguments a.calls).pretty

def counts (a : Analysis) : String :=
  "classes=" ++ toString a.classCount ++ " nodes=" ++ toString a.nodeCount
    ++ " edges=" ++ toString a.edgeCount ++ " modeled=" ++ toString a.calls.length
    ++ " synthetic=" ++ toString a.standInCount

variable {m : Type → Type} [Monad m] {Sink : Type}

def analyze (storage : Storage m Sink) (input : Input) : m (Except RunError Analysis) := do
  if ← storage.exists? input then
    match ← storage.read? input with
    | none => return .error (.unreadable input)
    | some content =>
      match Manifest.parse content with
      | .error e => return .error (.notParsed input e)
      | .ok manifest => return (Analysis.run manifest.classes).mapError .notAnalyzed
  else return .error (.inputNotFound input)

def openOutput (storage : Storage m Sink) : Option Input → m (Except RunError Sink)
  | none => return .ok storage.stdout
  | some path => do
    if isStdout path then return .ok storage.stdout
    else
      match ← storage.create? path with
      | none => return .error (.notOpened path)
      | some sink => return .ok sink

def writeLine (storage : Storage m Sink) (sink : Sink) (text : String) :
    m (Except RunError Unit) := do
  if ← storage.write sink text then
    if ← storage.write sink "\n" then return .ok ()
    else return .error .notWritten
  else return .error .notSerialized

def deliver (storage : Storage m Sink) (output : Option Input) (text : String) :
    m (Except RunError Unit) := do
  match ← openOutput storage output with
  | .error e => return .error e
  | .ok sink => writeLine storage sink text

def run (storage : Storage m Sink) (arguments : List Input) (options : Options) : m Ending := do
  match ← analyze storage options.input with
  | .error e => return .failed [] e
  | .ok analysis =>
    let warnings := if options.quiet then [] else analysis.warnings.map Warning.message
    match arguments.mapM Input.text? with
    | none => return .aborted warnings
    | some words =>
      match ← deliver storage options.output (reportText words analysis) with
      | .error e => return .failed warnings e
      | .ok () =>
        let timing := if options.timing && !options.quiet then some (counts analysis) else none
        return ⟨0, warnings, none, timing⟩

/-- A run with a list of arguments, the name of the program in front. -/
def execute (storage : Storage m Sink) (arguments : List Input) : m Ending :=
  match Request.parse arguments.tail with
  | .run options => run storage arguments options
  | .help => do
    discard (storage.write storage.stdout (helpText (calledAs arguments)))
    return .answered
  | .version => do
    discard (storage.write storage.stdout versionText)
    return .answered
  | .invalid => return .misused

end Command

end AnnotationGraph
