import AnnotationGraph.Json.Input

/-!
# The command line

The options of the program.  Arguments are taken from left to right; the first that is wrong, or that
asks for help or for the version, decides.

* `Request.parse` — what a list of arguments asks for.
-/

namespace AnnotationGraph

structure Options where
  input : Input
  output : Option Input
  quiet : Bool
  timing : Bool
  deriving DecidableEq

inductive Request where
  | run (options : Options)
  | help
  | version
  | invalid
  deriving DecidableEq

inductive PathOption where
  | input
  | output
  deriving DecidableEq

inductive Flag where
  | quiet
  | timing
  deriving DecidableEq

inductive Argument where
  | path (option : PathOption) (value : Option Input)
  | flag (f : Flag)
  | help
  | version
  /-- the mark after which no options follow -/
  | last
  | unknown
  deriving DecidableEq

namespace Argument

def long (name : Option String) (value : Option Input) : Argument :=
  match name, value with
  | some "input", _ => .path .input value
  | some "output", _ => .path .output value
  | some "quiet", none => .flag .quiet
  | some "timing", none => .flag .timing
  | some "help", none => .help
  | some "version", none => .version
  | _, _ => .unknown

def value? (text : Input) : Option Input :=
  match text.dropWhile (· ≠ .char '=') with
  | [] => none
  | _ :: value => some value

/-- What an argument says.  Of letters after one dash the first decides. -/
def of (text : Input) : Argument :=
  match text with
  | [.char '-', .char '-'] => .last
  | .char '-' :: .char '-' :: rest =>
    long (Input.text? (rest.takeWhile (· ≠ .char '='))) (value? rest)
  | .char '-' :: .char 'h' :: _ => .help
  | .char '-' :: .char 'V' :: _ => .version
  | _ => .unknown

def isValue (text : Input) : Bool :=
  match text with
  | [] => false
  | [.char '-'] => true
  | c :: _ => c ≠ .char '-'

end Argument

structure Settings where
  input : Option Input
  output : Option Input
  quiet : Bool
  timing : Bool
  deriving DecidableEq

namespace Settings

def none : Settings := ⟨.none, .none, false, false⟩

/-- Sets the path of an option, which has to be given once and not to be empty. -/
def setPath? (s : Settings) (option : PathOption) (value : Input) : Option Settings :=
  if value = [] then .none
  else
    match option with
    | .input => if s.input.isSome then .none else some { s with input := some value }
    | .output => if s.output.isSome then .none else some { s with output := some value }

def setFlag? (s : Settings) (f : Flag) : Option Settings :=
  match f with
  | .quiet => if s.quiet then .none else some { s with quiet := true }
  | .timing => if s.timing then .none else some { s with timing := true }

def request (s : Settings) : Request :=
  match s.input with
  | .none => .invalid
  | some input => .run ⟨input, s.output, s.quiet, s.timing⟩

end Settings

namespace Request

/-- What the arguments that are left ask for, after some options. -/
def parseFrom (s : Settings) : List Input → Request
  | [] => s.request
  | text :: rest =>
    match Argument.of text with
    | .help => .help
    | .version => .version
    | .unknown => .invalid
    | .last => if rest.isEmpty then s.request else .invalid
    | .flag f =>
      match s.setFlag? f with
      | none => .invalid
      | some s => parseFrom s rest
    | .path option (some value) =>
      match s.setPath? option value with
      | none => .invalid
      | some s => parseFrom s rest
    | .path option none =>
      match rest with
      | [] => .invalid
      | value :: rest =>
        if Argument.isValue value then
          match s.setPath? option value with
          | none => .invalid
          | some s => parseFrom s rest
        else .invalid

def parse (arguments : List Input) : Request := parseFrom .none arguments

end Request

end AnnotationGraph
