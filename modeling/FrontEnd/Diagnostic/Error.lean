import FrontEnd.Location

/-!
# Errors

The causes for which a program is refused, the text each of them is reported with, and the
suggestion that some of them carry. An error has a location unless it is about the whole file or
about the place behind its end.
-/

namespace FrontEnd

/-- Why a program is refused. -/
inductive Cause where
  -- Text that is no token.
  | unknownCharacter (character : Char)
  | unterminatedString
  | unterminatedComment
  -- Tokens that form no statement.
  | expectedValue (value : String)
  | expectedKind (kind : String)
  | expectedExpression
  | leadingComma
  | doubleComma
  | unexpectedEndOfFile
  | reservedWord (word : String)
  -- Brackets that do not pair up.
  | missingBrace (brace : Char)
  | mismatchedBrace (brace : Char)
  -- Statements without a meaning.
  | notAFunctionDefinition
  | noMainFunction
  | mainReturnsValue
  | mainTakesArguments
  | alreadyDefined (what name : String)
  | duplicateArgument (count : Nat) (name : String)
  | notAType
  | undeclaredAssignment (variableName : String) (typeName : Option String)
  | functionAssignment
  | builtinAssignment (name : String)
  | assignmentTypeMismatch (variableName expected received : String)
  | nestedFunction
  | variableNotDeclared (variableName : String)
  | variableNotInitialized (variableName : String)
  | notAFunction
  | argumentMismatch (function expected received : String)
  | returnsNothing
  | returnTypeMismatch (expected received : String)
  | unexpectedReturnValue
  | missingReturn (expected : String)
  | conditionTypeMismatch (received : String)
  -- A warning where none is wanted.
  | deniedWarning (warning : String)
deriving DecidableEq, Inhabited

namespace Cause

/-- The label of a cause, for tools that sort errors. -/
def label : Cause → String
  | unknownCharacter _ => "UnknownCharacter"
  | unterminatedString => "UnterminatedString"
  | unterminatedComment => "UnterminatedComment"
  | expectedValue _ => "ExpectedValue"
  | expectedKind _ => "ExpectedKind"
  | expectedExpression => "ExpectedExpression"
  | leadingComma => "LeadingComma"
  | doubleComma => "DoubleComma"
  | unexpectedEndOfFile => "UnexpectedEndOfFile"
  | reservedWord _ => "ReservedWord"
  | missingBrace _ => "MissingBrace"
  | mismatchedBrace _ => "MismatchedBrace"
  | notAFunctionDefinition => "NotAFunctionDefinition"
  | noMainFunction => "NoMainFunction"
  | mainReturnsValue => "MainReturnsValue"
  | mainTakesArguments => "MainTakesArguments"
  | alreadyDefined _ _ => "AlreadyDefined"
  | duplicateArgument _ _ => "DuplicateArgument"
  | notAType => "NotAType"
  | undeclaredAssignment _ _ => "UndeclaredAssignment"
  | functionAssignment => "FunctionAssignment"
  | builtinAssignment _ => "BuiltinAssignment"
  | assignmentTypeMismatch _ _ _ => "AssignmentTypeMismatch"
  | nestedFunction => "NestedFunction"
  | variableNotDeclared _ => "VariableNotDeclared"
  | variableNotInitialized _ => "VariableNotInitialized"
  | notAFunction => "NotAFunction"
  | argumentMismatch _ _ _ => "ArgumentMismatch"
  | returnsNothing => "ReturnsNothing"
  | returnTypeMismatch _ _ => "ReturnTypeMismatch"
  | unexpectedReturnValue => "UnexpectedReturnValue"
  | missingReturn _ => "MissingReturn"
  | conditionTypeMismatch _ => "ConditionTypeMismatch"
  | deniedWarning _ => "DeniedWarning"

/-- What the user is told. -/
def message : Cause → String
  | unknownCharacter character => s!"unknown character '{character}'"
  | unterminatedString => "this string doesn't end"
  | unterminatedComment => "this comment doesn't end"
  | expectedValue value => s!"this should be '{value}'"
  | expectedKind kind => s!"this should be {kind}"
  | expectedExpression => "this should be a variable name, a string or an integer"
  | leadingComma => "don't put a ',' here"
  | doubleComma => "two ',' characters"
  | unexpectedEndOfFile => "unexpected end of file"
  | reservedWord word =>
    s!"{word} is not a valid variable name because it has a special meaning"
  | missingBrace brace => s!"missing '{brace}'"
  | mismatchedBrace brace => s!"should be '{brace}'"
  | notAFunctionDefinition => "only function definitions can be here"
  | noMainFunction => "there's no main() function"
  | mainReturnsValue => "main() must not return anything"
  | mainTakesArguments => "main() must not take arguments"
  | alreadyDefined what name => s!"there's already a {what} named '{name}'"
  | duplicateArgument count name => s!"there are {count} arguments named '{name}'"
  | notAType => "this is not a type"
  | undeclaredAssignment variableName _ => s!"you need to declare '{variableName}' first"
  | functionAssignment => "functions can't be changed like this"
  | builtinAssignment name => s!"'{name}' can't be changed"
  | assignmentTypeMismatch variableName expected received =>
    s!"'{variableName}' needs to be {expected}, not {received}"
  | nestedFunction => "cannot define a function inside a function"
  | variableNotDeclared variableName => s!"no variable named '{variableName}'"
  | variableNotInitialized variableName =>
    s!"variable '{variableName}' might not have a value yet"
  | notAFunction => "this is not a function"
  | argumentMismatch function expected received =>
    s!"should be {function}({expected}), not {function}({received})"
  | returnsNothing => "this returns nothing"
  | returnTypeMismatch expected received =>
    s!"this function should return {expected}, not {received}"
  | unexpectedReturnValue => "this function shouldn't return a value"
  | missingReturn expected => s!"this function needs to return {expected} at the end"
  | conditionTypeMismatch received => s!"this should be a Bool, not {received}"
  | deniedWarning warning => warning

/-- A suggestion for what to write instead, if there is a good guess. -/
def tip? : Cause → Option String
  | undeclaredAssignment variableName (some typeName) =>
    some s!"e.g. \"{typeName} {variableName};\""
  | unexpectedEndOfFile => some "did you forget a ';' or a '\x7d'?"
  | mainReturnsValue | mainTakesArguments =>
    some "main() should look like \"function main() \x7b \x7d\""
  | variableNotInitialized variableName =>
    some s!"assign something to '{variableName}' before using it"
  | _ => none

end Cause

/-- A cause and the place where it showed. -/
structure Error where
  cause : Cause
  location : Option Location := none
deriving DecidableEq, Inhabited

/-- A cause that showed at a known place. -/
def Cause.located (cause : Cause) (location : Location) : Error :=
  ⟨cause, some location⟩

/-- A cause without a place. -/
def Cause.unlocated (cause : Cause) : Error :=
  ⟨cause, none⟩

namespace Error

/-- What the user is told. -/
def message (error : Error) : String :=
  error.cause.message

/-- A suggestion for what to write instead, if there is a good guess. -/
def tip? (error : Error) : Option String :=
  error.cause.tip?

/-- Whether the program ended too early. -/
def isEndOfFile (error : Error) : Bool :=
  error.cause == .unexpectedEndOfFile

/-- The error in one line, with the number of the line if there is one. -/
def summary (error : Error) : String :=
  match error.location with
  | some location => s!"line {location.line}: {error.message}"
  | none => error.message

end Error

end FrontEnd
