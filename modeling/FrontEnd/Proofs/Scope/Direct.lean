import FrontEnd.Typing.Program

/-!
# Checking with one stack of bodies

A second way to check a program, to compare the first one with. All open bodies stand on one stack,
and whatever is done to a variable is done to it at once, wherever on the stack it stands: a read
marks the innermost variable of its name as used (`Stack.update`), an assignment marks it as
initialized. Nothing is noted for later, and no variable has an address.

The rules of the language are the same, and so are the errors and the warnings and their order. The
scope of the file is taken over as it is (`Stack.ofScope`), since no body is open while the
functions of a file are declared.
-/

namespace FrontEnd.Direct

open Cause

/-- An open body, or the names outside of bodies. -/
structure Tier where
  kind : ScopeKind
  /-- The variables in the order in which they were declared. -/
  table : Table := []
  /-- The type that a function has to return here, if any. -/
  returns : Option Ty := none
  /-- The statements that are kept. -/
  output : List Stmt := []
deriving Inhabited

namespace Tier

/-- The variables that nothing reads, in the order in which they were declared. -/
def unused (tier : Tier) : Table :=
  tier.table.filter fun (_, old) => !old.used

/-- The warnings about the variables that nothing reads. -/
def warnings (tier : Tier) : List Warning :=
  tier.unused.filterMap fun (name, old) =>
    old.definedAt.map fun location => ⟨.unusedVariable name, location⟩

/-- The statements that are kept, without the variables that nothing reads. -/
def pruned (tier : Tier) : List Stmt :=
  tier.unused.foldl (fun block (name, _) => removeVariable name block) tier.output

end Tier

/-- The open bodies and the names outside of them, innermost first. -/
abbrev Stack := List Tier

namespace Stack

/-- The innermost variable with the given name, and the kind of the place where it stands. -/
def find (stack : Stack) (name : String) : Option (Variable × ScopeKind) :=
  match stack with
  | [] => none
  | tier :: outer =>
    match tier.table.lookup name with
    | some found => some (found, tier.kind)
    | none => find outer name

/-- Changes the innermost variable with the given name. -/
def update (stack : Stack) (name : String) (change : Variable → Variable) : Stack :=
  match stack with
  | [] => []
  | tier :: outer =>
    match tier.table.lookup name with
    | some _ => { tier with table := tier.table.adjust name change } :: outer
    | none => tier :: update outer name change

/-- What a declaration of `name` in the innermost body would hide and must not hide: a name of that
body, or any name outside of bodies. -/
def clash (stack : Stack) (name : String) : Option Variable :=
  match stack with
  | [] => none
  | tier :: outer =>
    match tier.table.lookup name with
    | some found => some found
    | none =>
      match find outer name with
      | none => none
      | some (found, kind) => if kind = .inner then none else some found

/-- Changes the innermost tier. -/
def modifyTop (stack : Stack) (change : Tier → Tier) : Stack :=
  match stack with
  | [] => []
  | tier :: outer => change tier :: outer

/-- Opens a body. -/
def push (stack : Stack) : Stack :=
  match stack with
  | [] => [{ kind := .inner }]
  | tier :: outer => { kind := tier.kind.child, returns := tier.returns } :: tier :: outer

/-- The type that a function has to return here, if any. -/
def returns (stack : Stack) : Option Ty :=
  stack.head?.bind Tier.returns

/-- The names of a scope. -/
def ofScope (scope : Scope) : Stack :=
  scope.levels.map fun level => ⟨level.kind, level.table, level.returns, level.output⟩

theorem find_ofScope (scope : Scope) (name : String) : (ofScope scope).find name =
      (scope.lookup name).map fun binding => (binding.found, binding.kind) := by
  simp only [ofScope, Scope.lookup]
  induction scope.levels with
  | nil => rfl
  | cons level levels ih =>
    rw [List.map_cons, List.findSome?_cons, find]
    cases level.table.lookup name with
    | some => rfl
    | none => exact ih

end Stack

/-- The state of checking: the stack, and the warnings so far. -/
structure State where
  stack : Stack
  warnings : List Warning := []

/-- Actions that check parts of a program. -/
abbrev Action := EStateM Error State

/-- Changes the stack. -/
def modifyStack (change : Stack → Stack) : Action Unit :=
  modify fun state => { state with stack := change state.stack }

theorem bind_get {α : Type} {next : State → Action α} {state : State} :
    (get >>= next : Action α) state = next state state := rfl

theorem modifyStack_run (change : Stack → Stack) (state : State) :
    modifyStack change state = .ok () { state with stack := change state.stack } := rfl

/-- Gives warnings. -/
def warn (warnings : List Warning) : Action Unit :=
  modify fun state => { state with warnings := state.warnings ++ warnings }

/-- Keeps a statement. -/
def emit (stmt : Stmt) : Action Unit :=
  modifyStack (·.modifyTop fun tier => { tier with output := tier.output ++ [stmt] })

/-- Adds a variable to the innermost body. -/
def declare (name : String) (new : Variable) : Action Unit :=
  modifyStack (·.modifyTop fun tier => { tier with table := tier.table.insert name new })

/-! ### Names -/

/-- What a name stands for, which must have a value. -/
def resolve (name : Name) : Action Entity := do
  match (← get).stack.find name.text with
  | none => throw ((variableNotDeclared name.text).located name.location)
  | some (found, _) =>
    if found.initialized then return found.entity
    else throw ((variableNotInitialized name.text).located name.location)

/-- Reads a variable, which is used from now on. -/
def readName (name : Name) : Action Entity := do
  let entity ← resolve name
  modifyStack (·.update name.text fun old => { old with used := true })
  return entity

/-- The type that a name stands for. -/
def typeNamed (name : Name) : Action Ty := do
  match ← resolve name with
  | .type type => return type
  | .value _ => throw (notAType.located name.location)

/-- Fails if a declaration of `name` would hide something it must not hide. -/
def ensureFree (name : String) (location : Location) : Action Unit := do
  match (← get).stack.clash name with
  | none => return ()
  | some found => throw ((alreadyDefined found.sort name).located location)

/-! ### Expressions -/

/-- What a part of an expression stands for, which must not be nothing. -/
def needValue (location : Location) : Option Entity → Action Entity
  | some entity => pure entity
  | none => throw (returnsNothing.located location)

/-- What a call of a function stands for, when all its arguments are known. -/
def applySignature (signature : Signature) (arguments : List Entity) (location : Location) :
    Action (Option Entity) :=
  if Infer.argumentsMatch arguments signature.parameters then
    pure (signature.returns.map Entity.value)
  else
    let expected := String.intercalate ", " (signature.parameters.map Ty.noun)
    let received := String.intercalate ", " (arguments.map Entity.noun)
    throw ((argumentMismatch signature.name expected received).located location)

mutual

/-- What an expression stands for. Only a call can stand for nothing. -/
def infer : Expr → Action (Option Entity)
  | .name name => some <$> readName name
  | .integer _ _ => pure (some (.value .int))
  | .string _ _ => pure (some (.value .string))
  | .call function arguments location => do
    let callee ← needValue function.location (← infer function)
    match callee.signature? with
    | none => throw (notAFunction.located function.location)
    | some signature => applySignature signature (← inferArguments arguments) location

/-- What the arguments of a call stand for. -/
def inferArguments : List Expr → Action (List Entity)
  | [] => pure []
  | argument :: arguments => do
    let entity ← needValue argument.location (← infer argument)
    return entity :: (← inferArguments arguments)

end

/-- What an expression stands for, which must not be nothing. -/
def inferValue (expression : Expr) : Action Entity := do
  needValue expression.location (← infer expression)

/-! ### Statements -/

/-- Declares a variable without a value. -/
def declareVariable (type : Name) (name : String) (location : Location) : Action Unit := do
  ensureFree name location
  let type ← typeNamed type
  declare name ⟨.value type, some location, false, false⟩

/-- The error for an assignment to a name that is not declared. If the value is a value of a basic
type, that type is part of the error. -/
def undeclared (target : Name) (value : Expr) (location : Location) : Action Unit := fun state =>
  match inferValue value state with
  | .ok (.value (.named type)) after =>
    .error ((undeclaredAssignment target.text (some type)).located location) after
  | .ok _ after | .error _ after =>
    .error ((undeclaredAssignment target.text none).located location) after

/-- Gives a variable a value, which it has from now on. Only variables of bodies can change, and
they keep their type. -/
def assign (target : Name) (value : Expr) (location : Location) : Action Unit := do
  match (← get).stack.find target.text with
  | none => undeclared target value location
  | some (found, kind) =>
    let expected := found.entity
    if kind ≠ .inner then
      throw <|
        if expected.signature?.isSome then functionAssignment.located target.location
        else (builtinAssignment target.text).located target.location
    let received ← inferValue value
    if received ≠ expected then
      throw ((assignmentTypeMismatch target.text (Text.withArticle expected.noun)
        (Text.withArticle received.noun)).located location)
    modifyStack (·.update target.text fun old => { old with initialized := true })

/-- Checks a condition, which has to be a truth value. -/
def condition (expression : Expr) : Action Unit := do
  let received ← inferValue expression
  unless received.isValueOf .bool do
    throw ((conditionTypeMismatch (Text.withArticle received.noun)).located
      expression.location)

/-- Checks the value that a function returns. -/
def returned (value : Expr) (location : Location) : Action Unit := do
  let received ← inferValue value
  match (← get).stack.returns with
  | none => throw (unexpectedReturnValue.located location)
  | some expected =>
    unless received.isValueOf expected do
      throw ((returnTypeMismatch (Text.withArticle expected.noun)
        (Text.withArticle received.noun)).located location)

/-- Checks an expression that has no effect. A name in it has to have a value, but is not read. -/
def idle : Expr → Action Unit
  | .name name => do
    let _ ← resolve name
  | _ => pure ()

/-- Finishes a body: warns about the variables that nothing reads, and returns the statements that
are kept without them. -/
def finish (tier : Tier) : Action (List Stmt) := do
  warn tier.warnings
  return tier.pruned

/-- Runs an action with a new body on top of the stack, takes the body off the stack and returns
it. -/
def inBody (action : Action Unit) : Action Tier := do
  modifyStack Stack.push
  action
  let tier := (← get).stack.headD default
  modifyStack List.tail
  return tier

mutual

/-- Checks a statement, and keeps it if it has an effect. -/
def execute : Stmt → Action Unit
  | .declaration type name location => do
    declareVariable type name location
    emit (.declaration type name location)
  | .assignment target value location => do
    assign target value location
    emit (.assignment target value location)
  | .conditional expression body location => do
    condition expression
    let tier ← inBody (executeAll body)
    let kept ← finish tier
    emit (.conditional expression kept location)
  | .result value location => do
    returned value location
    emit (.result value location)
  | .function _ _ _ _ location => throw (nestedFunction.located location)
  | .expression expression location =>
    if expression.isCall then do
      let _ ← infer expression
      emit (.expression expression location)
    else do
      warn [⟨.noEffect, location⟩]
      idle expression
  | .retain name location => emit (.retain name location)
  | .release name location => emit (.release name location)

/-- Checks the statements of a body in their order. -/
def executeAll : List Stmt → Action Unit
  | [] => pure ()
  | stmt :: block => do
    execute stmt
    executeAll block

end

/-! ### Programs -/

/-- Declares a parameter, which has a value and needs no reader. -/
def declareParameter (parameter : Parameter) (type : Ty) : Action Unit := do
  ensureFree parameter.name.text parameter.name.location
  declare parameter.name.text ⟨.value type, some parameter.name.location, true, true⟩

/-- Declares the parameters of a function. -/
def declareParameters : List Parameter → List Ty → Action Unit
  | parameter :: parameters, type :: types => do
    declareParameter parameter type
    declareParameters parameters types
  | _, _ => pure ()

/-- Checks that a body with a value to return ends with doing so. -/
def ensureResult (returns : Option Ty) (function : FunctionDef) : Action Unit :=
  match returns with
  | none => pure ()
  | some expected =>
    unless endsWithResult function.body do
      throw ((missingReturn (Text.withArticle expected.noun)).located function.location)

/-- Checks the body of a function, which is the innermost one on the stack, and returns the
statements that are kept. -/
def functionBody (signature : Signature) (function : FunctionDef) : Action (List Stmt) := do
  modifyStack (·.modifyTop fun tier => { tier with returns := signature.returns })
  declareParameters function.parameters signature.parameters
  executeAll function.body
  ensureResult signature.returns function
  finish ((← get).stack.headD default)

/-- Checks a function of a file and returns what is kept of it. -/
def checkFunction (file : Stack) (function : FunctionDef) : Report Error FunctionDef :=
  match (file.find function.name).bind fun (found, _) => found.entity.signature? with
  | none => ⟨.error ((variableNotDeclared function.name).located function.location), []⟩
  | some signature =>
    match functionBody signature function { stack := file.push } with
    | .ok body state => ⟨.ok { function with body := body }, state.warnings⟩
    | .error error state => ⟨.error error, state.warnings⟩

/-- Checks functions one after the other, up to the first error. -/
def checkFunctions (file : Stack) : List FunctionDef → Report Error (List FunctionDef)
  | [] => ⟨.ok [], []⟩
  | function :: functions =>
    match checkFunction file function with
    | ⟨.error error, warnings⟩ => ⟨.error error, warnings⟩
    | ⟨.ok checked, warnings⟩ =>
      let rest := checkFunctions file functions
      ⟨rest.result.map (checked :: ·), warnings ++ rest.warnings⟩

/-- Checks a program and returns what is kept of it. -/
def check (program : Program) : Report Error Program :=
  match program.functions with
  | .error error => ⟨.error error, []⟩
  | .ok functions =>
    match Program.fileScope functions with
    | .error error => ⟨.error error, []⟩
    | .ok file =>
      let report := checkFunctions (Stack.ofScope file) functions
      ⟨report.result.map (·.map FunctionDef.toStmt), report.warnings⟩

end FrontEnd.Direct
