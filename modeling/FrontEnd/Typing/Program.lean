import FrontEnd.Diagnostic.Report
import FrontEnd.Typing.Check

/-!
# Checking programs

A program is a list of functions, one of which is `main`. All of them are declared before any of
them is checked, so that a function can be called in front of its definition. After that each
function is checked by itself, in the scope of the file, which no longer changes
(`FunctionDef.check`).
-/

namespace FrontEnd

namespace Scope

/-- Adds the signature of a function to the scope of a file. -/
def declareFunction (scope : Scope) (function : FunctionDef) : Except Error Scope := do
  scope.ensureFree function.name function.location
  if function.name = "main" then
    if function.returnType.isSome then
      throw (Cause.mainReturnsValue.located function.location)
    unless function.parameters.isEmpty do
      throw (Cause.mainTakesArguments.located function.location)
  let names := function.parameters.map (·.name.text)
  if let some name := names.find? fun name => 1 < names.count name then
    throw ((Cause.duplicateArgument (names.count name) name).located function.location)
  let parameters ← function.parameters.mapM fun parameter => scope.typeNamed parameter.type
  let returns ← function.returnType.mapM scope.typeNamed
  let signature : Signature := ⟨function.name, parameters, returns⟩
  return scope.declare function.name ⟨.value signature.toTy, some function.location, true, true⟩

/-- The scope of a file with the given functions. -/
def ofFunctions (functions : List FunctionDef) : Except Error Scope :=
  functions.foldlM declareFunction builtin.child

/-- The signature of a function of a file. -/
def signature? (scope : Scope) (name : String) : Option Signature :=
  (scope.lookup name).bind fun binding => binding.found.entity.signature?

end Scope

namespace Check

/-- Declares a parameter, which has a value and needs no reader. -/
def declareParameter (parameter : Parameter) (type : Ty) : Check Unit := do
  require (·.ensureFree parameter.name.text parameter.name.location)
  modifyScope (·.declare parameter.name.text
    ⟨.value type, some parameter.name.location, true, true⟩)

/-- Declares the parameters of a function. -/
def declareParameters : List Parameter → List Ty → Check Unit
  | parameter :: parameters, type :: types => do
    declareParameter parameter type
    declareParameters parameters types
  | _, _ => pure ()

/-- Checks that a body with a value to return ends with doing so. Since a condition need not hold,
only the very last statement counts. -/
def ensureResult (returns : Option Ty) (function : FunctionDef) : Check Unit :=
  match returns with
  | none => pure ()
  | some expected =>
    unless endsWithResult function.body do
      throw ((Cause.missingReturn (Text.withArticle expected.noun)).located function.location)

/-- Checks the body of a function in its own scope and returns the statements that are kept. -/
def functionBody (signature : Signature) (function : FunctionDef) : Check (List Stmt) := do
  modifyScope (·.modifyOwn fun level => { level with returns := signature.returns })
  declareParameters function.parameters signature.parameters
  executeAll function.body
  ensureResult signature.returns function
  finish (← get).scope.own

end Check

/-- Checks a function of a file and returns what is kept of it. -/
def FunctionDef.check (file : Scope) (function : FunctionDef) : Report Error FunctionDef :=
  match file.signature? function.name with
  | none => ⟨.error ((Cause.variableNotDeclared function.name).located function.location), []⟩
  | some signature =>
    match Check.functionBody signature function { scope := file.child } with
    | .ok body state => ⟨.ok { function with body := body }, state.warnings⟩
    | .error error state => ⟨.error error, state.warnings⟩

/-- Checks functions one after the other, up to the first error. -/
def FunctionDef.checkAll (file : Scope) : List FunctionDef → Report Error (List FunctionDef)
  | [] => ⟨.ok [], []⟩
  | function :: functions =>
    match function.check file with
    | ⟨.error error, warnings⟩ => ⟨.error error, warnings⟩
    | ⟨.ok checked, warnings⟩ =>
      let rest := checkAll file functions
      ⟨rest.result.map (checked :: ·), warnings ++ rest.warnings⟩

namespace Program

/-- The functions of a program. Nothing else may stand outside of bodies. -/
def functions : Program → Except Error (List FunctionDef)
  | [] => .ok []
  | stmt :: program =>
    match stmt.toFunctionDef? with
    | none => .error (Cause.notAFunctionDefinition.located stmt.location)
    | some function => (functions program).map (function :: ·)

/-- The scope of the file that a program is, with all its functions declared. -/
def fileScope (functions : List FunctionDef) : Except Error Scope :=
  if functions.any (·.name = "main") then Scope.ofFunctions functions
  else .error Cause.noMainFunction.unlocated

/-- Checks a program and returns what is kept of it. -/
def check (program : Program) : Report Error Program :=
  match functions program with
  | .error error => ⟨.error error, []⟩
  | .ok functions =>
    match fileScope functions with
    | .error error => ⟨.error error, []⟩
    | .ok file =>
      let report := FunctionDef.checkAll file functions
      ⟨report.result.map (·.map FunctionDef.toStmt), report.warnings⟩

end Program

end FrontEnd
