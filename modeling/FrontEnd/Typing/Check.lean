import FrontEnd.Text.Article
import FrontEnd.Typing.Infer

/-!
# Checking statements

Checking the statements of a body keeps those that are needed: variables that nothing reads are
removed when the body is finished, and statements without an effect are not kept in the first place.
Both are warned about.

Statements are actions of the monad `Check`. An action that fails leaves behind what it had done to
the scope before, and the warnings it had given; of a body inside of another, only the warnings are
left (`Check.inChild`).
-/

namespace FrontEnd

/-- The state of checking a body. -/
structure Checking where
  scope : Scope
  /-- The warnings so far, in the order in which they were given. -/
  warnings : List Warning := []

/-- Actions that check statements. -/
abbrev Check := EStateM Error Checking

namespace Check

variable {α : Type}

/-- What looking at an expression does. -/
def infer (action : Infer α) : Check α := fun state =>
  match action state.scope with
  | .ok value scope => .ok value { state with scope := scope }
  | .error error scope => .error error { state with scope := scope }

/-- A test of the scope that changes nothing. -/
def require (test : Scope → Except Error α) : Check α := fun state =>
  match test state.scope with
  | .ok value => .ok value state
  | .error error => .error error state

/-- Changes the scope. -/
def modifyScope (change : Scope → Scope) : Check Unit :=
  modify fun state => { state with scope := change state.scope }

/-- Keeps a statement. -/
def emit (stmt : Stmt) : Check Unit :=
  modifyScope (·.emit stmt)

/-- Gives warnings. -/
def warn (warnings : List Warning) : Check Unit :=
  modify fun state => { state with warnings := state.warnings ++ warnings }

/-- Finishes a level: warns about the variables that nothing reads, and returns the statements that
are kept without them. -/
def finish (level : Level) : Check (List Stmt) := do
  warn level.warnings
  return level.pruned

/-- Runs an action in a new scope inside of the current one and returns the level that it leaves.
The current scope is not changed, whether the action fails or not. -/
def inChild (action : Check Unit) : Check Level := fun state =>
  match action { state with scope := state.scope.child } with
  | .ok _ after => .ok after.scope.own { state with warnings := after.warnings }
  | .error error after => .error error { state with warnings := after.warnings }

/-! ### Statements -/

/-- Declares a variable without a value. -/
def declareVariable (type : Name) (name : String) (location : Location) : Check Unit := do
  require (·.ensureFree name location)
  let type ← require (·.typeNamed type)
  modifyScope (·.declare name ⟨.value type, some location, false, false⟩)

/-- The error for an assignment to a name that is not declared. If the value is a value of a basic
type, that type is part of the error. -/
def undeclared (target : Name) (value : Expr) (location : Location) : Check Unit := fun state =>
  match Infer.inferValue value state.scope with
  | .ok (.value (.named type)) scope =>
    .error ((Cause.undeclaredAssignment target.text (some type)).located location)
      { state with scope := scope }
  | .ok _ scope | .error _ scope =>
    .error ((Cause.undeclaredAssignment target.text none).located location)
      { state with scope := scope }

/-- Gives a variable a value. Only variables of bodies can change, and they keep their type. -/
def assign (target : Name) (value : Expr) (location : Location) : Check Unit := do
  match (← get).scope.lookup target.text with
  | none => undeclared target value location
  | some binding =>
    let expected := binding.found.entity
    if binding.kind ≠ .inner then
      throw <|
        if expected.signature?.isSome then Cause.functionAssignment.located target.location
        else (Cause.builtinAssignment target.text).located target.location
    let received ← infer (Infer.inferValue value)
    if received ≠ expected then
      throw ((Cause.assignmentTypeMismatch target.text (Text.withArticle expected.noun)
        (Text.withArticle received.noun)).located location)
    modifyScope (·.markInitialized target.text binding.depth)

/-- Checks a condition, which has to be a truth value. -/
def condition (expression : Expr) : Check Unit := do
  let received ← infer (Infer.inferValue expression)
  unless received.isValueOf .bool do
    throw ((Cause.conditionTypeMismatch (Text.withArticle received.noun)).located
      expression.location)

/-- Checks the value that a function returns. -/
def returned (value : Expr) (location : Location) : Check Unit := do
  let received ← infer (Infer.inferValue value)
  match (← get).scope.own.returns with
  | none => throw (Cause.unexpectedReturnValue.located location)
  | some expected =>
    unless received.isValueOf expected do
      throw ((Cause.returnTypeMismatch (Text.withArticle expected.noun)
        (Text.withArticle received.noun)).located location)

/-- Checks an expression that has no effect. A name in it has to have a value, but is not read. -/
def idle : Expr → Check Unit
  | .name name => do
    let _ ← require (·.resolve name)
  | _ => pure ()

mutual

/-- Checks a statement, and keeps it if it has an effect. -/
def execute : Stmt → Check Unit
  | .declaration type name location => do
    declareVariable type name location
    emit (.declaration type name location)
  | .assignment target value location => do
    assign target value location
    emit (.assignment target value location)
  | .conditional expression body location => do
    condition expression
    let level ← inChild (executeAll body)
    let kept ← finish level
    modifyScope (·.apply level.outer)
    emit (.conditional expression kept location)
  | .result value location => do
    returned value location
    emit (.result value location)
  | .function _ _ _ _ location => throw (Cause.nestedFunction.located location)
  | .expression expression location =>
    if expression.isCall then do
      let _ ← infer (Infer.infer expression)
      emit (.expression expression location)
    else do
      warn [⟨.noEffect, location⟩]
      idle expression
  | .retain name location => emit (.retain name location)
  | .release name location => emit (.release name location)

/-- Checks the statements of a body in their order. -/
def executeAll : List Stmt → Check Unit
  | [] => pure ()
  | stmt :: block => do
    execute stmt
    executeAll block

end

end Check

end FrontEnd
