import ScreenForms.Command.Run

/-!
# The command line program

Reads what a command line asks for, lets it be run, and carries out the actions.
-/

namespace ScreenForms.Command

/-- Whether something is there under a path. -/
def isThere (path : String) : IO Bool := do
  try
    discard (IO.FS.realPath path)
    return true
  catch _ => return false

/-- What is found under a path. -/
def readSource (path : String) : IO Source := do
  if path.isEmpty || !(← isThere path) then return .missing
  try return .content (← IO.FS.readBinFile path).toList
  catch e => return .unreadable (toString e)

/-- The part of a path before its last slash. -/
def directoryOf (path : String) : String :=
  let parts := Text.splitOn '/' path.toList
  String.ofList (Text.joinWith ['/'] parts.dropLast)

/-- Carries out one action; gives the reason when a file cannot be written. -/
def Action.perform : Action → IO (Option String)
  | .print text => do
    (← IO.getStdout).putStr text
    return none
  | .report text => do
    (← IO.getStderr).putStrLn text
    return none
  | .save path content => do
    try
      let directory := directoryOf path
      unless directory.isEmpty do IO.FS.createDirAll directory
      IO.FS.writeFile path content
      return none
    catch e => return some (toString e)

/-- Carries out the actions up to the first that fails. -/
def performAll : List Action → IO (Option String)
  | [] => return none
  | action :: rest => do
    match ← action.perform with
    | some reason => return some reason
    | none => performAll rest

/-- Carries out what a command does and gives its exit code. -/
def Run.perform (r : Run) : IO UInt32 := do
  match ← performAll r.actions with
  | none => return r.exitCode.toUInt32
  | some reason =>
    let failure := Failure.unreadable reason
    (← IO.getStderr).putStrLn failure.message
    return failure.exitCode.toUInt32

/-- Reads everything that a command can read. -/
def readInputs (i : Invocation) : IO Inputs := do
  let files ← i.reads.mapM fun path => return (path, ← readSource path)
  let stdin ← match i.task with
    | .translate "-" .. => (← IO.getStdin).readBinToEnd
    | _ => pure ByteArray.empty
  return { file := fun path => (files.lookup path).getD .missing, stdin := stdin.toList }

end ScreenForms.Command

open ScreenForms.Command in
/-- Runs a command line. -/
def main (args : List String) : IO UInt32 :=
  match Invocation.read args with
  | .ok i => do (i.run (← readInputs i)).perform
  | .error refusal => refusal.run.perform
