import FrontEnd.Typing.Scope

/-!
# What expressions stand for

Every name in an expression has to be declared and to have a value; reading it is noted in the
scope. A call needs a function and arguments of exactly the types of its parameters. What it stands
for is a value of the type that the function returns, or nothing.

Parts of an expression are looked at from left to right, and the first error is reported. What was
read before stays noted.
-/

namespace FrontEnd

/-- Actions that look names up in a scope and note which of them are read. -/
abbrev Infer := EStateM Error Scope

namespace Infer

/-- Reads a variable. -/
def readName (name : Name) : Infer Entity := fun scope =>
  match scope.resolve name with
  | .error error => .error error scope
  | .ok binding =>
    .ok binding.found.entity (scope.markUsed name.text binding.kind binding.depth)

/-- What a part of an expression stands for, which must not be nothing. -/
def needValue (location : Location) : Option Entity → Infer Entity
  | some entity => pure entity
  | none => throw (Cause.returnsNothing.located location)

/-- Whether the arguments are values of the types of the parameters, one by one. -/
def argumentsMatch : List Entity → List Ty → Bool
  | [], [] => true
  | entity :: entities, type :: types => entity.isValueOf type && argumentsMatch entities types
  | _, _ => false

/-- What a call of a function stands for, when all its arguments are known. -/
def applySignature (signature : Signature) (arguments : List Entity) (location : Location) :
    Infer (Option Entity) :=
  if argumentsMatch arguments signature.parameters then
    pure (signature.returns.map Entity.value)
  else
    let expected := String.intercalate ", " (signature.parameters.map Ty.noun)
    let received := String.intercalate ", " (arguments.map Entity.noun)
    throw ((Cause.argumentMismatch signature.name expected received).located location)

mutual

/-- What an expression stands for. Only a call can stand for nothing. -/
def infer : Expr → Infer (Option Entity)
  | .name name => some <$> readName name
  | .integer _ _ => pure (some (.value .int))
  | .string _ _ => pure (some (.value .string))
  | .call function arguments location => do
    let callee ← needValue function.location (← infer function)
    match callee.signature? with
    | none => throw (Cause.notAFunction.located function.location)
    | some signature => applySignature signature (← inferArguments arguments) location

/-- What the arguments of a call stand for. -/
def inferArguments : List Expr → Infer (List Entity)
  | [] => pure []
  | argument :: arguments => do
    let entity ← needValue argument.location (← infer argument)
    return entity :: (← inferArguments arguments)

end

/-- What an expression stands for, which must not be nothing. -/
def inferValue (expression : Expr) : Infer Entity := do
  needValue expression.location (← infer expression)

end Infer

end FrontEnd
