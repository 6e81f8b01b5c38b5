import FrontEnd.Compile
import FrontEnd.Diagnostic.Excerpt
import FrontEnd.Tree.Dump

/-!
# The command line

Arguments are read from left to right. An argument that is not known, or that is given twice, ends
reading, and so does a question for the version or for help: the first of these decides. Whether
a file is given, and whether the options go together, is asked when all arguments have been read.

A run has a text to print, diagnostics, and an exit code: zero if all went well, one if the program
could not be read or was refused, and two if the arguments make no sense.
-/

namespace FrontEnd.CommandLine

/-- The arguments so far. -/
structure Arguments where
  file : Option String := none
  lex : Bool := false
  parse : Bool := false
  check : Bool := false
  denyWarnings : Bool := false
  noDecref : Bool := false
deriving DecidableEq, Inhabited

/-- What ends the reading of arguments. -/
inductive Interruption where
  | usage
  | version
  | help
deriving DecidableEq, Inhabited

/-- What is to be done with a file. -/
inductive Task where
  /-- List the tokens. -/
  | tokens
  /-- Print the program as it was read. -/
  | tree
  /-- Compile the program and print the outcome. -/
  | compile (options : Options)
deriving DecidableEq, Inhabited

namespace Arguments

/-- Takes a file. There is one at most, and its name is not empty. -/
def withFile (arguments : Arguments) (file : String) : Except Interruption Arguments :=
  if file.isEmpty || arguments.file.isSome then .error .usage
  else .ok { arguments with file := some file }

/-- Takes an option that starts with one dash. Only the first letter counts. -/
def short (letters : List Char) : Interruption :=
  match letters.head? with
  | some 'V' => .version
  | some 'h' => .help
  | _ => .usage

/-- Takes one argument in front of a double dash. -/
def withArgument (arguments : Arguments) (argument : String) :
    Except Interruption Arguments :=
  match argument with
  | "--lex" =>
    if arguments.lex then .error .usage else .ok { arguments with lex := true }
  | "--parse" =>
    if arguments.parse then .error .usage else .ok { arguments with parse := true }
  | "--check" =>
    if arguments.check then .error .usage else .ok { arguments with check := true }
  | "--deny-warnings" =>
    if arguments.denyWarnings then .error .usage
    else .ok { arguments with denyWarnings := true }
  | "--no-decref" =>
    if arguments.noDecref then .error .usage else .ok { arguments with noDecref := true }
  | "--version" => .error .version
  | "--help" => .error .help
  | _ =>
    match argument.toList with
    | '-' :: '-' :: _ => .error .usage
    | '-' :: c :: letters => .error (short (c :: letters))
    | _ => arguments.withFile argument

/-- Takes all arguments. Behind a double dash there are only files. -/
def withAll (arguments : Arguments) : List String → Except Interruption Arguments
  | [] => .ok arguments
  | "--" :: files => files.foldlM withFile arguments
  | argument :: others => do
    let arguments ← arguments.withArgument argument
    arguments.withAll others

/-- Whether two options exclude each other. -/
def conflict (arguments : Arguments) : Bool :=
  arguments.lex && (arguments.parse || arguments.check) || arguments.parse && arguments.check

/-- What the options ask for. -/
def task (arguments : Arguments) : Task :=
  if arguments.lex then .tokens
  else if arguments.parse then .tree
  else
    .compile
      { denyWarnings := arguments.denyWarnings
        lowerRefcounts := !arguments.noDecref && !arguments.check }

end Arguments

/-- The file that the arguments name, and what is to be done with it. -/
def request (arguments : List String) : Except Interruption (String × Task) := do
  let arguments ← Arguments.withAll {} arguments
  match arguments.file with
  | some file => if arguments.conflict then throw .usage else return (file, arguments.task)
  | none => throw .usage

/-- What a run leaves behind. -/
structure Outcome where
  exit : Nat
  stdout : String := ""
  stderr : String := ""
deriving DecidableEq, Inhabited

/-- How the program is called and which version it is. -/
def versionText : String :=
  "weirdc 0.1.0\n"

/-- How the program is to be used. -/
def usageText : String :=
  String.join <| List.map (· ++ "\n")
    ["Usage: weirdc [OPTIONS] <FILE>",
      "",
      "Options:",
      "      --lex            Only tokenize and print the tokens",
      "      --parse          Stop after parsing and print the statements",
      "      --check          Stop after checking, without reference counts",
      "      --deny-warnings  Treat warnings as errors",
      "      --no-decref      Don't make reference counts explicit",
      "  -h, --help           Print help",
      "  -V, --version        Print version"]

/-- The outcome of arguments that name no task. -/
def Interruption.outcome : Interruption → Outcome
  | .usage => { exit := 2, stderr := usageText }
  | .version => { exit := 0, stdout := versionText }
  | .help => { exit := 0, stdout := usageText }

/-- Why a file cannot be read. -/
inductive ReadFailure where
  | missing
  | denied
  | notFolder
  | isFolder
  | nameTooLong
  /-- The bytes of the file are not those of a text. -/
  | notText
  | other (reason : String)
deriving DecidableEq, Inhabited

/-- What the user is told about a file that cannot be read. -/
def ReadFailure.reason : ReadFailure → String
  | missing => "No such file or directory (os error 2)"
  | denied => "Permission denied (os error 13)"
  | notFolder => "Not a directory (os error 20)"
  | isFolder => "Is a directory (os error 21)"
  | nameTooLong => "File name too long (os error 36)"
  | notText => "stream did not contain valid UTF-8"
  | other reason => reason

/-- The outcome for a file that cannot be read. -/
def ReadFailure.outcome (failure : ReadFailure) (path : String) : Outcome :=
  { exit := 1, stderr := s!"error: cannot read '{path}': {failure.reason}\n" }

/-- The last part of a path, which is the name of the file in diagnostics. -/
def fileName (path : String) : String :=
  String.ofList (path.toList.reverse.takeWhile (· ≠ '/')).reverse

/-- A program with the name it has in diagnostics. -/
structure Source where
  fileName : String
  text : String
deriving DecidableEq, Inhabited

namespace Source

/-- A diagnostic about a program, with the line it is about. -/
def diagnostic? (source : Source) (sort message : String) (location : Option Location) :
    Option String :=
  let line := match location with
    | some location => Text.lineNumbered location.line source.text
    | none => ""
  excerpt? sort source.fileName message location line

/-- A warning as it is shown. -/
def warning? (source : Source) (warning : Warning) : Option String :=
  source.diagnostic? "warning" warning.message (some warning.location)

/-- An error as it is shown, without its tip. -/
def error? (source : Source) (error : Error) : Option String :=
  source.diagnostic? "error" error.message error.location

/-- An error as it is shown, and the tip below it. -/
def errorWithTip? (source : Source) (error : Error) : Option String :=
  (source.error? error).map fun shown =>
    match error.tip? with
    | some tip => s!"{shown}\n  ({tip})\n"
    | none => s!"{shown}\n"

end Source

/-- One token in a listing, behind its place. -/
def tokenLine (token : Token) : String :=
  s!"{token.location.line}:{token.location.start}: {token.listing}"

/-- What a task prints about a program, and the warnings it gives. -/
def Task.report (task : Task) (source : String) : Report Stop String :=
  match task with
  | .tokens =>
    ⟨Stop.ofError ((Program.tokens source).map fun tokens =>
      String.intercalate "\n" (tokens.map tokenLine)), []⟩
  | .tree => ⟨(Program.read source).map Program.dump, []⟩
  | .compile options =>
    let report := FrontEnd.compile source options
    ⟨report.result.map Program.dump, report.warnings⟩

/-- The outcome of a task. There is none if the text of a program could lead to a fault, or to a
diagnostic about a line of blanks. -/
def run (task : Task) (source : Source) : Option Outcome := do
  let report := task.report source.text
  let warnings ← report.warnings.mapM source.warning?
  let shown := String.join (warnings.map (· ++ "\n"))
  match report.result with
  | .ok output => return { exit := 0, stdout := output ++ "\n", stderr := shown }
  | .error (.error error) =>
    return { exit := 1, stderr := shown ++ (← source.errorWithTip? error) }
  | .error (.fault _) => none

end FrontEnd.CommandLine
