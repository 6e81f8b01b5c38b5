import FrontEnd.Bracket
import FrontEnd.Refcount.Lower
import FrontEnd.Token.Lexer
import FrontEnd.Tree.Statements
import FrontEnd.Typing.Program

/-!
# From the text of a program to its lowered form

`Program.read` turns a text into statements, and `compile` checks them and makes their reference
counts explicit. Each step is done for the whole program before the next one starts, so that an
error of an early step is reported before any error of a later one.
-/

namespace FrontEnd

/-- An outcome without faults, where faults are possible too. -/
def Stop.ofError {α : Type} : Except Error α → Except Stop α
  | .ok value => .ok value
  | .error e => .error (.error e)

namespace Program

/-- The tokens of a text, or the first error in it. -/
def tokens (source : String) : Except Error (List Token) :=
  (tokenize source).mapM id

/-- The statements of a text. -/
def read (source : String) : Except Stop Program := do
  let tokens ← Stop.ofError (tokens source)
  Stop.ofError (Bracket.check tokens)
  parse (tokens.map .ok)

end Program

/-- What compiling is to do. -/
structure Options where
  /-- Whether the first warning is an error. -/
  denyWarnings : Bool := false
  /-- Whether reference counts are made explicit. -/
  lowerRefcounts : Bool := true
deriving DecidableEq, Inhabited

/-- The error that a warning is where none is wanted. -/
def Warning.denied (warning : Warning) : Error :=
  (Cause.deniedWarning warning.message).located warning.location

/-- What becomes of a checked program: an error if there are warnings and none are wanted, else its
statements, with reference counts if they are wanted. -/
def Options.apply (options : Options) (warnings : List Warning) (checked : Program) :
    Except Stop Program :=
  match options.denyWarnings, warnings with
  | true, warning :: _ => .error (.error warning.denied)
  | _, _ => .ok (if options.lowerRefcounts then Refcount.lower checked else checked)

/-- Compiles the text of a program. -/
def compile (source : String) (options : Options) : Report Stop Program :=
  match Program.read source with
  | .error stop => ⟨.error stop, []⟩
  | .ok program =>
    match Program.check program with
    | ⟨.error error, warnings⟩ => ⟨.error (.error error), warnings⟩
    | ⟨.ok checked, warnings⟩ => ⟨options.apply warnings checked, warnings⟩

end FrontEnd
