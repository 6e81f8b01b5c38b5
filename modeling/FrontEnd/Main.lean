import FrontEnd.CommandLine

/-!
# The program

Reads the file that the arguments name, runs the task they ask for, and prints what it leaves
behind.
-/

namespace FrontEnd.CommandLine

/-- Why a file cannot be read, from the number that the system has for it. It may come negated. -/
def ReadFailure.ofError (error : IO.Error) : ReadFailure :=
  let number (code : UInt32) : UInt32 := min code (-code)
  match error with
  | .noFileOrDirectory .. => .missing
  | .permissionDenied _ code _ =>
    if number code = 13 then .denied else .other (toString error)
  | .invalidArgument _ code _ =>
    if number code = 36 then .nameTooLong else .other (toString error)
  | .inappropriateType _ code _ =>
    if number code = 20 then .notFolder
    else if number code = 21 then .isFolder
    else .other (toString error)
  | _ => .other (toString error)

/-- The outcome of a task for the file at `path`. -/
def runFile (path : String) (task : Task) : IO Outcome := do
  match ← (IO.FS.readBinFile path).toBaseIO with
  | .error error => return (ReadFailure.ofError error).outcome path
  | .ok bytes =>
    match String.fromUTF8? bytes with
    | none => return ReadFailure.notText.outcome path
    | some text =>
      return (run task { fileName := fileName path, text := text }).getD { exit := 101 }

end FrontEnd.CommandLine

/-- Runs the program with the given arguments. -/
def main (arguments : List String) : IO UInt32 := do
  let outcome ←
    match FrontEnd.CommandLine.request arguments with
    | .error interruption => pure interruption.outcome
    | .ok (path, task) => FrontEnd.CommandLine.runFile path task
  IO.print outcome.stdout
  IO.eprint outcome.stderr
  return outcome.exit.toUInt32
