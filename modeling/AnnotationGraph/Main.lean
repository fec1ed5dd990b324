import AnnotationGraph.Command.Basic

/-!
# The executable

Runs the program on the files of the disk.
-/

namespace AnnotationGraph

def succeeds {α : Type} (action : IO α) : IO Bool := do
  try
    discard action
    return true
  catch _ => return false

inductive DiskSink where
  | stdout
  | file (handle : IO.FS.Handle)

def DiskSink.write (sink : DiskSink) (text : String) : IO Bool :=
  succeeds do
    match sink with
    | .stdout => IO.print text
    | .file handle =>
      handle.putStr text
      handle.flush

/-- The files of the disk, of which only those with names in UTF-8 are found. -/
def diskStorage : Storage IO DiskSink where
  exists? path :=
    match path.text? with
    | none => return false
    | some path => succeeds (IO.FS.realPath path)
  read? path := do
    match path.text? with
    | none => return none
    | some path =>
      try return some (Input.ofBytes (← IO.FS.readBinFile path).toList)
      catch _ => return none
  stdout := .stdout
  create? path := do
    match path.text? with
    | none => return none
    | some path =>
      try return some (.file (← IO.FS.Handle.mk path .write))
      catch _ => return none
  write := DiskSink.write

def Ending.present (e : Ending) (elapsed : Nat) : IO UInt32 := do
  for warning in e.warnings do
    IO.eprintln ("WARN " ++ warning)
  match e.error with
  | some message => IO.eprintln ("Error: " ++ message)
  | none => pure ()
  if e.exitCode = 2 then IO.eprint (Command.helpText Report.toolName)
  match e.timing with
  | some counts => IO.eprintln ("timing: total_ms=" ++ toString elapsed ++ " " ++ counts)
  | none => pure ()
  return e.exitCode

end AnnotationGraph

open AnnotationGraph in
def main (arguments : List String) : IO UInt32 := do
  let started ← IO.monoMsNow
  let ending ← Command.execute diskStorage ((Report.toolName :: arguments).map .ofText)
  ending.present ((← IO.monoMsNow) - started)
