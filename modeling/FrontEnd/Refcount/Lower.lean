import FrontEnd.Refcount.Local
import FrontEnd.Refcount.TempNames

/-!
# Making reference counts explicit

Every reference to a value on the heap is released exactly once, on every way out of the body that
owns it. To this end

* a value that is passed to a function without being in a variable is moved to a temporary first,
  and the temporary is released behind the call (`hoist`);
* a variable that gets a new value releases its old one, when the new one is safe in a temporary;
* a copy of a variable takes a reference of its own, and so does a parameter that is returned or
  that gets a new value;
* the variables of a body are released at its end, newest first, and all variables of a function
  before it returns, but for the one that is returned: its reference goes to the caller.

A condition is evaluated before its body, which may return; so the temporaries of a condition are
variables of the body around it.
-/

namespace FrontEnd.Refcount

/-- The names of the types that functions return, or nothing for those without a value. The latest
entry for a name counts. -/
abbrev ReturnTypes := List (String × Option String)

/-- The return types of the functions of a program and of the built-in ones. -/
def ReturnTypes.ofProgram (program : Program) : ReturnTypes :=
  (program.filterMap Stmt.toFunctionDef?).foldl
    (fun types function => (function.name, function.returnType.map Name.text) :: types)
    [("input", some "String"), ("print", none)]

/-- What is known of a program while its functions are lowered. -/
structure Context where
  returnTypes : ReturnTypes
  names : TempNames
deriving Inhabited

/-- The context of a program. -/
def Context.ofProgram (program : Program) : Context :=
  { returnTypes := .ofProgram program, names := { taken := Stmt.namesOfAll program } }

/-- A new name for a temporary. -/
def Context.tempName (context : Context) : String × Context :=
  let (name, names) := context.names.fresh
  (name, { context with names := names })

/-- The state of lowering a function. -/
structure Lowering extends Context where
  frames : Frames := []
deriving Inhabited

/-- The type of an expression, as far as it can be told from the variables and functions at hand. -/
def Lowering.typeOf (state : Lowering) : Expr → Option String
  | .integer _ _ => some "Int"
  | .string _ _ => some "String"
  | .name name =>
    match state.frames.lookup name.text with
    | some v => some v.type
    | none => if name.text = "TRUE" ∨ name.text = "FALSE" then some "Bool" else none
  | .call (.name function) _ _ => (state.returnTypes.lookup function.text).join
  | .call _ _ _ => none

/-- The type of an expression, if its values are counted. -/
def Lowering.heapTypeOf (state : Lowering) (expression : Expr) : Option String :=
  (state.typeOf expression).filter isHeap

/-- Actions that lower parts of a function. -/
abbrev Lower := StateM Lowering

namespace Lower

/-- A new temporary for a value. -/
def makeTemp (value : Expr) (type : String) : Lower Temp := fun state =>
  let (name, context) := state.tempName
  (⟨{ name := name, type := type, location := value.location }, value⟩,
    { state with toContext := context })

/-- Adds variables to the innermost body, one after the other. -/
def declareAll (locals : List Local) : Lower Unit :=
  modify fun state => { state with frames := locals.foldl Frames.declare state.frames }

/-! ### Expressions -/

/-- An argument of a call: a value on the heap is moved to a temporary. -/
def settle (argument : Expr) (temps : List Temp) : Lower (Expr × List Temp) := do
  match (← get).heapTypeOf argument with
  | some type =>
    let temp ← makeTemp argument type
    return (temp.use, temps ++ [temp])
  | none => return (argument, temps)

mutual

/-- Moves the values on the heap that are passed to functions to temporaries. Returns the expression
that uses them, and the temporaries in the order in which they get their values. -/
def hoist : Expr → Lower (Expr × List Temp)
  | .call function arguments location => do
    let (arguments, temps) ← hoistArguments arguments
    return (.call function arguments location, temps)
  | expression => return (expression, [])

/-- Moves the values on the heap among the arguments of a call to temporaries. A variable can be
passed as it is. -/
def hoistArguments : List Expr → Lower (List Expr × List Temp)
  | [] => return ([], [])
  | .name name :: arguments => do
    let (rest, temps) ← hoistArguments arguments
    return (.name name :: rest, temps)
  | argument :: arguments => do
    let (inner, innerTemps) ← hoist argument
    let (settled, temps) ← settle inner innerTemps
    let (rest, moreTemps) ← hoistArguments arguments
    return (settled :: rest, temps ++ moreTemps)

end

/-! ### Statements -/

/-- The releases of temporaries, newest first. -/
def releaseTemps (temps : List Temp) : List Stmt :=
  temps.reverse.map Temp.release

/-- Lowers an expression by itself. A value on the heap that nobody wants is released at once. -/
def expression (value : Expr) (location : Location) : Lower (List Stmt) := do
  let (value, temps) ← hoist value
  let core ←
    match value.isCall, (← get).heapTypeOf value with
    | true, some type => do
      let unwanted ← makeTemp value type
      pure (unwanted.setup ++ [unwanted.release])
    | _, _ => pure [.expression value location]
  return temps.flatMap Temp.setup ++ core ++ releaseTemps temps

/-- Lowers an assignment. `fresh` tells that the target was declared right before, and so has no old
value to release. -/
def assignment (fresh : Bool) (target : Name) (value : Expr) (location : Location) :
    Lower (List Stmt) := do
  let (value, temps) ← hoist value
  let core ←
    match ((← get).frames.lookup target.text).filter fun v => isHeap v.type with
    | none => pure [.assignment target value location]
    | some v =>
      if fresh then
        match value with
        | .name _ =>
          pure [.assignment target value location, .retain target.text target.location]
        | _ => pure [.assignment target value location]
      else do
        let temp ← makeTemp value v.type
        pure (temp.setup ++
          [.release target.text v.location, .assignment target temp.use location])
  return temps.flatMap Temp.setup ++ core ++ releaseTemps temps

/-- Lowers the return of a variable. Its own reference goes to the caller, or a new one if it has
only borrowed one. -/
def resultName (name : Name) (location : Location) : Lower (List Stmt) := do
  let frames := (← get).frames
  let borrowed := (frames.lookup name.text).any fun v => !v.owned && isHeap v.type
  return (if borrowed then [.retain name.text name.location] else []) ++
    frames.releaseAll (some name.text) ++ [.result (.name name) location]

/-- Lowers the return of a value that is not in a variable. -/
def resultValue (value : Expr) (location : Location) : Lower (List Stmt) := do
  let (value, temps) ← hoist value
  let (setup, value) ←
    match (← get).typeOf value with
    | some type => do
      let temp ← makeTemp value type
      pure (temp.setup, temp.use)
    | none => pure ([], value)
  return temps.flatMap Temp.setup ++ setup ++ releaseTemps temps ++
    (← get).frames.releaseAll none ++ [.result value location]

/-- Lowers the end of a function. -/
def result (value : Expr) (location : Location) : Lower (List Stmt) :=
  match value with
  | .name name => resultName name location
  | _ => resultValue value location

/-- Lowers a body with the given variables by an action for its statements. What the body still owns
at its end is released, unless it has returned. -/
def inFrame (locals : List Local) (returned : Bool) (action : Lower (List Stmt)) :
    Lower (List Stmt) := do
  modify fun state => { state with frames := locals :: state.frames }
  let block ← action
  let frames := (← get).frames
  modify fun state => { state with frames := state.frames.tail }
  return if returned then block else block ++ frames.releaseInnermost

mutual

/-- Lowers a statement. `previous` is the one before it in the same body. -/
def statement (previous : Option Stmt) : Stmt → Lower (List Stmt)
  | .declaration type name location => do
    declareAll [{ name := name, type := type.text, location := location }]
    return [.declaration type name location]
  | .assignment target value location =>
    assignment (previous.any (·.declares target.text)) target value location
  | .conditional condition body location => do
    let (condition, temps) ← hoist condition
    declareAll (temps.map Temp.place)
    let body ← inFrame [] (endsWithResult body) (block none body)
    return temps.flatMap Temp.setup ++ [.conditional condition body location]
  | .result value location => result value location
  | .expression value location => expression value location
  | stmt => return [stmt]

/-- Lowers the statements of a body behind `previous`. -/
def block (previous : Option Stmt) : List Stmt → Lower (List Stmt)
  | [] => return []
  | stmt :: stmts => do
    let lowered ← statement previous stmt
    return lowered ++ (← block (some stmt) stmts)

end

mutual

/-- The names that get a value in a statement. -/
def assignedNames : Stmt → List String
  | .assignment target _ _ => [target.text]
  | .conditional _ body _ => assignedNamesOfAll body
  | _ => []

/-- The names that get a value in a body. -/
def assignedNamesOfAll : List Stmt → List String
  | [] => []
  | stmt :: block => assignedNames stmt ++ assignedNamesOfAll block

end

/-- A parameter as a variable. It has a reference of its own if it gets a new value. -/
def ofParameter (assigned : List String) (parameter : Parameter) : Local :=
  { name := parameter.name.text
    type := parameter.type.text
    location := parameter.name.location
    owned := isHeap parameter.type.text && assigned.contains parameter.name.text }

/-- Lowers a function. -/
def function (definition : FunctionDef) : Lower FunctionDef := do
  let parameters := definition.parameters.map
    (ofParameter (assignedNamesOfAll definition.body))
  let prologue := (parameters.filter (·.owned)).map fun v => Stmt.retain v.name v.location
  let body ← inFrame parameters.reverse (endsWithResult definition.body)
    (block none definition.body)
  return { definition with body := prologue ++ body }

end Lower

namespace Context

/-- Lowers a function in the context of its program. -/
def lowerFunction (context : Context) (function : FunctionDef) : FunctionDef × Context :=
  let (lowered, state) := Lower.function function { toContext := context }
  (lowered, state.toContext)

/-- Lowers the functions of a program. Anything else is kept as it is. -/
def lower (context : Context) : Program → Program × Context
  | [] => ([], context)
  | stmt :: program =>
    let (first, context) := match stmt.toFunctionDef? with
      | some function =>
        let (lowered, context) := context.lowerFunction function
        (lowered.toStmt, context)
      | none => (stmt, context)
    let (rest, context) := lower context program
    (first :: rest, context)

end Context

/-- Makes the reference counts of a program explicit. -/
def lower (program : Program) : Program :=
  ((Context.ofProgram program).lower program).1

end FrontEnd.Refcount
