import FrontEnd.Tree.Basic

/-!
# Running programs

A run of a program keeps an environment, with a frame for each open body, a store for the objects
that integers and strings are, and a record of what the outside world gets to see. Arguments are
evaluated from left to right, a body has its own scope, and a declared variable holds a mark
(`Value.unset`) until it gets a value.

How objects are stored is left open (`Memory`). There are two memories. In the *plain* one an object
is nothing but what it holds. In the *counted* one (`Memory.counted`) each object has a count of
references, and to touch an object whose count has reached zero ends the run, as does counting
references of a variable that is not there. A call of a function is audited: it must have changed no
count, but for one more reference to the object that it returns.

Programs loop by recursion alone, so a bound on the depth of calls makes every run finite
(`Machine.call`). A run that meets its bound ends with `Halt.depth`, and a program terminates if
some bound is not met. A run ends with `Halt.stuck` where it comes to something that has no meaning:
a name that nothing declares, a call of a variable, or a value of another type than the place that
it gets to.
-/

namespace FrontEnd.Execution

/-- What an object holds. -/
inductive Data where
  /-- An integer, by its digits. -/
  | integer (digits : String)
  | text (text : String)
deriving DecidableEq

/-- The name of the type of an object. -/
def Data.type : Data → String
  | integer _ => "Int"
  | text _ => "String"

/-- Values, with objects by references to them. -/
inductive Value (ρ : Type) where
  /-- What a call of a function without a value gives. -/
  | nothing
  /-- What a variable holds before it gets a value. -/
  | unset
  | truth (holds : Bool)
  | object (reference : ρ)
  /-- A type or a function, which no variable holds. -/
  | static (name : String)
deriving DecidableEq

/-- A variable of a run. -/
structure Slot (ρ : Type) where
  name : String
  /-- The name of its type. -/
  type : String
  /-- Where it was declared. -/
  location : Location
  value : Value ρ := .unset

/-- The variables of a function that runs: a frame for each open body, innermost and newest
first. -/
abbrev Env (ρ : Type) := List (List (Slot ρ))

/-- What can end a run before its time. -/
inductive Halt where
  /-- Calls nest more deeply than they may. -/
  | depth
  /-- Something has no meaning. -/
  | stuck
  /-- An object is touched that has no references any more. -/
  | dangling
  /-- References are counted of a variable that is not there. -/
  | missing
  /-- A call has changed the counts of objects in another way than it may. -/
  | unbalanced
deriving DecidableEq

/-- What the outside world sees. -/
inductive Event where
  /-- A line is written, or nothing if the variable had no value. -/
  | printed (line : Option String)
  /-- A line is read. -/
  | read (line : String)
deriving DecidableEq

/-- What has gone out and come in so far. -/
structure World where
  /-- The number of lines read. -/
  asked : Nat := 0
  /-- The number of conditions met. -/
  branched : Nat := 0
  events : List Event := []
deriving DecidableEq

/-- What comes from outside: the lines to be read, and whether the body behind a condition is run.
The latter is given the number of the condition in the run and its value, if it has one. -/
structure Setting where
  line : Nat → String
  taken : Nat → Option Bool → Bool := fun _ holds => holds = some true

/-- The state of a run. -/
structure State (ρ σ : Type) where
  env : Env ρ
  store : σ
  world : World

/-- Parts of a run. -/
abbrev Run (ρ σ : Type) := EStateM Halt (State ρ σ)

/-- How objects are stored. -/
structure Memory (ρ σ : Type) where
  /-- Makes an object, with one reference to it. -/
  create : Data → σ → ρ × σ
  /-- What an object holds that still has references. -/
  look : ρ → σ → Option Data
  /-- Whether references are counted at all. -/
  counts : Bool
  /-- One more reference to an object that still has references. -/
  retain : ρ → σ → Option σ
  /-- One reference less to an object that still has references. -/
  release : ρ → σ → Option σ
  /-- Whether a call with the given value was right to turn one store into the other. -/
  balanced : σ → σ → Value ρ → Bool

/-- What runs a program. -/
structure Machine (ρ σ : Type) where
  memory : Memory ρ σ
  setting : Setting
  program : Program

/-! ### Environments -/

namespace Env

variable {ρ : Type}

/-- The innermost variable of a name. -/
def find (env : Env ρ) (name : String) : Option (Slot ρ) :=
  env.flatten.find? (·.name = name)

/-- The innermost variable of a name that was declared at a place. -/
def findAt (env : Env ρ) (name : String) (location : Location) : Option (Slot ρ) :=
  env.flatten.find? fun slot => slot.name = name && slot.location = location

/-- Adds a variable to the innermost body. -/
def declare (env : Env ρ) (slot : Slot ρ) : Env ρ :=
  match env with
  | [] => []
  | frame :: outer => (slot :: frame) :: outer

/-- Gives a new value to the innermost variable of a name in a frame. -/
def updateFrame (name : String) (value : Value ρ) : List (Slot ρ) → List (Slot ρ)
  | [] => []
  | slot :: frame =>
    if slot.name = name then { slot with value := value } :: frame
    else slot :: updateFrame name value frame

/-- Gives a new value to the innermost variable of a name. -/
def update (name : String) (value : Value ρ) : Env ρ → Env ρ
  | [] => []
  | frame :: outer =>
    if frame.any (·.name = name) then updateFrame name value frame :: outer
    else frame :: update name value outer

/-- The frame that a function starts with. -/
def ofArguments (parameters : List Parameter) (arguments : List (Value ρ)) : Env ρ :=
  [(parameters.zipWith (fun parameter value =>
    ⟨parameter.name.text, parameter.type.text, parameter.name.location, value⟩) arguments).reverse]

end Env

/-! ### Memories -/

/-- The memory in which objects are what they hold, and nothing is counted. -/
def Memory.plain : Memory Data Unit where
  create data _ := (data, ())
  look data _ := some data
  counts := false
  retain _ store := some store
  release _ store := some store
  balanced _ _ _ := true

/-- An object with its count of references. -/
structure Object where
  data : Data
  count : Nat

/-- All objects that were ever made, in the order in which they were. -/
abbrev Heap := List Object

namespace Heap

/-- The number of references to an object. -/
def count (heap : Heap) (address : Nat) : Nat :=
  match heap[address]? with
  | some object => object.count
  | none => 0

/-- Changes the count of an object that still has references. -/
def recount (heap : Heap) (address : Nat) (change : Nat → Nat) : Option Heap :=
  match heap[address]? with
  | some ⟨_, 0⟩ | none => none
  | some object => some (heap.set address { object with count := change object.count })

/-- Whether all counts are the same in two heaps, but for one more reference to a value. -/
def balanced (before after : Heap) (result : Value Nat) : Bool :=
  (List.range (max before.length after.length)).all fun address =>
    after.count address = before.count address + if result = .object address then 1 else 0

end Heap

/-- The memory in which references are counted. -/
def Memory.counted : Memory Nat Heap where
  create data heap := (heap.length, heap ++ [⟨data, 1⟩])
  look address heap :=
    match heap[address]? with
    | some ⟨_, 0⟩ | none => none
    | some object => some object.data
  counts := true
  retain address heap := heap.recount address (· + 1)
  release address heap := heap.recount address (· - 1)
  balanced := Heap.balanced

namespace Machine

variable {ρ σ : Type} (machine : Machine ρ σ)

/-! ### Objects and variables -/

/-- Makes an object. -/
def create (data : Data) : Run ρ σ (Value ρ) := fun state =>
  let (reference, store) := machine.memory.create data state.store
  .ok (.object reference) { state with store := store }

/-- What an object holds. -/
def look (reference : ρ) : Run ρ σ Data := fun state =>
  match machine.memory.look reference state.store with
  | some data => .ok data state
  | none => .error .dangling state

/-- Checks that a value may get to a place of the given type. A variable without a value fits
everywhere. -/
def expect (value : Value ρ) (type : String) : Run ρ σ Unit :=
  match value with
  | .unset => pure ()
  | .truth _ => if type = "Bool" then pure () else throw .stuck
  | .object reference => do
    let data ← machine.look reference
    if data.type = type then pure () else throw .stuck
  | .nothing | .static _ => throw .stuck

/-- Checks that values may be passed to a function. -/
def expectAll : List (Value ρ) → List Parameter → Run ρ σ Unit
  | [], [] => pure ()
  | value :: values, parameter :: parameters => do
    machine.expect value parameter.type.text
    expectAll values parameters
  | _, _ => throw .stuck

/-- The functions of the program, by their names. -/
def definition? (name : String) : Option FunctionDef :=
  (machine.program.filterMap Stmt.toFunctionDef?).find? (·.name = name)

/-- What a name means outside of bodies. -/
def global? (name : String) : Option (Value ρ) :=
  if name = "TRUE" then some (.truth true)
  else if name = "FALSE" then some (.truth false)
  else if name ∈ ["Int", "String", "Bool", "print", "input"] ∨
    (machine.definition? name).isSome then
    some (.static name)
  else none

/-- Reads a name. -/
def readName (name : String) : Run ρ σ (Value ρ) := do
  match (← get).env.find name with
  | some slot =>
    if let .object reference := slot.value then
      let _ ← machine.look reference
    return slot.value
  | none =>
    match machine.global? name with
    | some value => return value
    | none => throw .stuck

/-- Changes the environment. -/
def modifyEnv (change : Env ρ → Env ρ) : Run ρ σ Unit :=
  modify fun state => { state with env := change state.env }

/-- Gives a value to a variable. -/
def assign (name : String) (value : Value ρ) : Run ρ σ Unit := do
  match (← get).env.find name with
  | none => throw .stuck
  | some slot =>
    machine.expect value slot.type
    modifyEnv (·.update name value)

/-- Changes the count of the object that a variable holds, if it holds one. -/
def recount (change : ρ → σ → Option σ) (slot : Option (Slot ρ)) : Run ρ σ Unit := fun state =>
  match slot with
  | none => .error .missing state
  | some slot =>
    match slot.value with
    | .object reference =>
      match change reference state.store with
      | some store => .ok () { state with store := store }
      | none => .error .dangling state
    | _ => .ok () state

/-- One more reference to what the innermost variable of a name holds. -/
def retain (name : String) : Run ρ σ Unit := do
  if machine.memory.counts then
    recount machine.memory.retain ((← get).env.find name)

/-- One reference less to what a variable holds, which is known by its name and its place. -/
def release (name : String) (location : Location) : Run ρ σ Unit := do
  if machine.memory.counts then
    recount machine.memory.release ((← get).env.findAt name location)

/-! ### The outside world -/

/-- Lets the world see something. -/
def emit (event : Event) : Run ρ σ Unit :=
  modify fun state => { state with world.events := state.world.events ++ [event] }

/-- Writes a line. -/
def print (value : Value ρ) : Run ρ σ (Value ρ) := do
  match value with
  | .unset => emit (.printed none)
  | .object reference =>
    match ← machine.look reference with
    | .text line => emit (.printed (some line))
    | .integer _ => throw .stuck
  | _ => throw .stuck
  return .nothing

/-- Reads a line. -/
def input : Run ρ σ (Value ρ) := do
  let asked := (← get).world.asked
  let line := machine.setting.line asked
  modify fun state => { state with world.asked := asked + 1 }
  emit (.read line)
  machine.create (.text line)

/-- Whether the body behind a condition is run. -/
def branch (value : Value ρ) : Run ρ σ Bool := do
  let number := (← get).world.branched
  modify fun state => { state with world.branched := number + 1 }
  match value with
  | .truth holds => return machine.setting.taken number (some holds)
  | .unset => return machine.setting.taken number none
  | _ => throw .stuck

/-! ### Expressions and statements -/

/-- How functions are called. -/
abbrev Caller (ρ σ : Type) := String → List (Value ρ) → Run ρ σ (Value ρ)

/-- Calls what an expression stands for. Only names stand for functions, and only where no variable
hides them. -/
def apply (call : Caller ρ σ) : Expr → List (Value ρ) → Run ρ σ (Value ρ)
  | .name function, arguments => do
    match (← get).env.find function.text with
    | some _ => throw .stuck
    | none => call function.text arguments
  | _, _ => throw .stuck

mutual

/-- Evaluates an expression, arguments from left to right. -/
def eval (call : Caller ρ σ) : Expr → Run ρ σ (Value ρ)
  | .name name => machine.readName name.text
  | .integer digits _ => machine.create (.integer digits)
  | .string text _ => machine.create (.text text)
  | .call function arguments _ => do
    let values ← evalAll call arguments
    apply call function values

/-- Evaluates the arguments of a call from left to right. -/
def evalAll (call : Caller ρ σ) : List Expr → Run ρ σ (List (Value ρ))
  | [] => return []
  | argument :: arguments => do
    let value ← eval call argument
    let values ← evalAll call arguments
    return value :: values

end

/-- Runs a body in a frame of its own. -/
def inBlock (action : Run ρ σ (Option (Value ρ))) : Run ρ σ (Option (Value ρ)) := do
  modifyEnv ([] :: ·)
  let result ← action
  modifyEnv List.tail
  return result

mutual

/-- Runs a statement. It may end its function, with a value. -/
def exec (evaluate : Expr → Run ρ σ (Value ρ)) : Stmt → Run ρ σ (Option (Value ρ))
  | .expression expression _ => do
    let _ ← evaluate expression
    return none
  | .declaration type name location => do
    modifyEnv (·.declare { name, type := type.text, location })
    return none
  | .assignment target value _ => do
    let value ← evaluate value
    machine.assign target.text value
    return none
  | .conditional condition body _ => do
    let value ← evaluate condition
    if ← machine.branch value then
      inBlock (execAll evaluate body)
    else
      return none
  | .result value _ => do
    let value ← evaluate value
    return some value
  | .function .. => throw .stuck
  | .retain name _ => do
    machine.retain name
    return none
  | .release name location => do
    machine.release name location
    return none

/-- Runs the statements of a body in their order, up to one that ends the function. -/
def execAll (evaluate : Expr → Run ρ σ (Value ρ)) : List Stmt → Run ρ σ (Option (Value ρ))
  | [] => return none
  | stmt :: block => do
    match ← exec evaluate stmt with
    | some value => return some value
    | none => execAll evaluate block

end

/-! ### Functions -/

/-- The value of a call, which has to be what the head of the function says. -/
def conclude (returnType : Option Name) (result : Option (Value ρ)) : Run ρ σ (Value ρ) :=
  match returnType, result with
  | none, none => return .nothing
  | some type, some value => do
    machine.expect value type.text
    return value
  | _, _ => throw .stuck

/-- Checks what a call has done to the store. -/
def audit (before : σ) (value : Value ρ) : Run ρ σ Unit := do
  unless machine.memory.balanced before (← get).store value do
    throw .unbalanced

/-- Runs a function of the program. The variables of the caller are out of reach meanwhile. -/
def invoke (evaluate : Expr → Run ρ σ (Value ρ)) (function : FunctionDef)
    (arguments : List (Value ρ)) : Run ρ σ (Value ρ) := do
  machine.expectAll arguments function.parameters
  let before ← get
  modifyEnv fun _ => Env.ofArguments function.parameters arguments
  let result ← machine.execAll evaluate function.body
  modifyEnv fun _ => before.env
  let value ← machine.conclude function.returnType result
  machine.audit before.store value
  return value

/-- A way to evaluate expressions, given a way to call functions. -/
abbrev Strategy (ρ σ : Type) := Caller ρ σ → Expr → Run ρ σ (Value ρ)

/-- What the built-in functions do. -/
def builtin? (name : String) (arguments : List (Value ρ)) : Option (Run ρ σ (Value ρ)) :=
  match name, arguments with
  | "print", [value] => some (machine.print value)
  | "input", [] => some machine.input
  | _, _ => none

/-- Calls a function, with a bound on the depth of calls. -/
def call (strategy : Strategy ρ σ) (depth : Nat) (name : String) (arguments : List (Value ρ)) :
    Run ρ σ (Value ρ) :=
  match machine.builtin? name arguments, machine.definition? name, depth with
  | some action, _, _ => action
  | none, none, _ => throw .stuck
  | none, some _, 0 => throw .depth
  | none, some function, depth + 1 =>
    machine.invoke (strategy (call strategy depth)) function arguments

section Call

variable {machine} {strategy : Strategy ρ σ} {depth : Nat} {name : String}
  {arguments : List (Value ρ)}

theorem call_builtin {action : Run ρ σ (Value ρ)}
    (h : machine.builtin? name arguments = some action) :
    machine.call strategy depth name arguments = action := by
  unfold call
  simp only [h]

section

variable (h : machine.builtin? name arguments = none)
include h

theorem call_undefined (hdefinition : machine.definition? name = none) :
    machine.call strategy depth name arguments = throw .stuck := by
  unfold call
  simp only [h, hdefinition]

theorem call_zero {function : FunctionDef}
    (hdefinition : machine.definition? name = some function) :
    machine.call strategy 0 name arguments = throw .depth := by
  unfold call
  simp only [h, hdefinition]

theorem call_succ {function : FunctionDef}
    (hdefinition : machine.definition? name = some function) :
    machine.call strategy (depth + 1) name arguments =
      machine.invoke (strategy (machine.call strategy depth)) function arguments := by
  conv => lhs; unfold call
  simp only [h, hdefinition]

end

/-- Only the names of the built-in functions are theirs. -/
theorem builtin?_eq_none (hprint : name ≠ "print") (hinput : name ≠ "input") :
    machine.builtin? name arguments = none := by
  unfold builtin?
  split
  · exact absurd rfl hprint
  · exact absurd rfl hinput
  · rfl

end Call

/-- What is left of a call when it is over, for those outside: its value, if it got that far, and
what the world has seen. -/
def observe {α : Type} (action : Run ρ σ α) (state : State ρ σ) : Except Halt α × World :=
  match action state with
  | .ok value after => (.ok value, after.world)
  | .error halt after => (.error halt, after.world)

end Machine

end FrontEnd.Execution
