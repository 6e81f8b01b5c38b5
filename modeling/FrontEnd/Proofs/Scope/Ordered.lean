import FrontEnd.Typing.Program

/-!
# Handing effects on in any order

The effects of a finished body are two sets of addresses, and a set can be gone through in any
order. Here a program is checked with the order left open: an `Order` rearranges the effects each
time they are handed on, and may do so differently every time. Checking as it is defined takes the
effects in the order in which they were noted (`Ordered.check_asNoted`).

Effects that are handed on to a level without the variable in question are dropped without a word.
So this way of checking keeps an account of them (`Scope.homeless`): of every effect handed on for
which no level of the scope has a variable at that depth and of that name.
-/

namespace FrontEnd

/-- The effects that are about no variable of a scope. -/
def Scope.homeless (scope : Scope) (effects : Effects) : List Address :=
  (effects.used ++ effects.initialized).filter fun (depth, name) =>
    !scope.levels.any fun level => level.depth = depth && (level.table.lookup name).isSome

/-- An order to hand effects on in, which can be another one each time. -/
abbrev Order := Nat → Effects → Effects

/-- An order only rearranges: each of the two sets keeps its members. -/
def Order.Rearranges (order : Order) : Prop :=
  ∀ turn effects, (order turn effects).used.Perm effects.used ∧
    (order turn effects).initialized.Perm effects.initialized

/-- The order in which the effects were noted. -/
def Order.asNoted : Order := fun _ effects => effects

theorem Order.asNoted_rearranges : Order.asNoted.Rearranges :=
  fun _ _ => ⟨.refl _, .refl _⟩

namespace Ordered

/-- The state of checking with an order: the number of times that effects have been handed on, and
the effects that were dropped on the way. -/
structure State extends Checking where
  turn : Nat := 0
  lost : List Address := []

/-- Actions that check statements with an order. -/
abbrev Action := EStateM Error State

variable {α β : Type}

/-- An action that hands nothing on. -/
def lift (action : Check α) : Action α := fun state =>
  match action state.toChecking with
  | .ok value after => .ok value { state with toChecking := after }
  | .error error after => .error error { state with toChecking := after }

/-- Runs an action in a new scope inside of the current one and returns the level that it leaves. -/
def inChild (action : Action Unit) : Action Level := fun state =>
  match action { state with scope := state.scope.child } with
  | .ok _ after => .ok after.scope.own { after with scope := state.scope }
  | .error error after => .error error { after with scope := state.scope }

/-- Hands effects on to the current level. -/
def handOn (order : Order) (effects : Effects) : Action Unit :=
  modify fun state =>
    let arranged := order state.turn effects
    { state with
      scope := state.scope.apply arranged
      turn := state.turn + 1
      lost := state.lost ++ state.scope.homeless arranged }

mutual

/-- Checks a statement, and keeps it if it has an effect. -/
def execute (order : Order) : Stmt → Action Unit
  | .conditional expression body location => do
    lift (Check.condition expression)
    let level ← inChild (executeAll order body)
    let kept ← lift (Check.finish level)
    handOn order level.outer
    lift (Check.emit (.conditional expression kept location))
  | stmt => lift (Check.execute stmt)

/-- Checks the statements of a body in their order. -/
def executeAll (order : Order) : List Stmt → Action Unit
  | [] => pure ()
  | stmt :: block => do
    execute order stmt
    executeAll order block

end

/-- Checks the body of a function in its own scope and returns the statements that are kept. -/
def functionBody (order : Order) (signature : Signature) (function : FunctionDef) :
    Action (List Stmt) := do
  lift (Check.modifyScope (·.modifyOwn fun level => { level with returns := signature.returns }))
  lift (Check.declareParameters function.parameters signature.parameters)
  executeAll order function.body
  lift (Check.ensureResult signature.returns function)
  lift (Check.finish (← get).scope.own)

/-- What comes of checking with an order: a report, and the effects that were dropped. -/
structure Outcome (α : Type) where
  report : Report Error α
  lost : List Address := []

/-- Checks a function of a file. -/
def checkFunction (order : Order) (file : Scope) (function : FunctionDef) :
    Outcome FunctionDef :=
  match file.signature? function.name with
  | none =>
    ⟨⟨.error ((Cause.variableNotDeclared function.name).located function.location), []⟩, []⟩
  | some signature =>
    match functionBody order signature function { scope := file.child } with
    | .ok body state => ⟨⟨.ok { function with body := body }, state.warnings⟩, state.lost⟩
    | .error error state => ⟨⟨.error error, state.warnings⟩, state.lost⟩

/-- Checks functions one after the other, up to the first error, each with an order of its own. -/
def checkFunctions (orders : Nat → Order) (file : Scope) :
    List FunctionDef → Outcome (List FunctionDef)
  | [] => ⟨⟨.ok [], []⟩, []⟩
  | function :: functions =>
    match checkFunction (orders functions.length) file function with
    | ⟨⟨.error error, warnings⟩, lost⟩ => ⟨⟨.error error, warnings⟩, lost⟩
    | ⟨⟨.ok checked, warnings⟩, lost⟩ =>
      let rest := checkFunctions orders file functions
      ⟨⟨rest.report.result.map (checked :: ·), warnings ++ rest.report.warnings⟩,
        lost ++ rest.lost⟩

/-- Checks a program and returns what is kept of it, with an order for each of its functions. -/
def check (orders : Nat → Order) (program : Program) : Outcome Program :=
  match program.functions with
  | .error error => ⟨⟨.error error, []⟩, []⟩
  | .ok functions =>
    match Program.fileScope functions with
    | .error error => ⟨⟨.error error, []⟩, []⟩
    | .ok file =>
      let outcome := checkFunctions orders file functions
      ⟨⟨outcome.report.result.map (·.map FunctionDef.toStmt), outcome.report.warnings⟩,
        outcome.lost⟩

/-! ### The order in which effects were noted -/

/-- An action does what another one does that keeps no account. -/
def Projects (action : Action α) (plain : Check α) : Prop :=
  ∀ state, match action state with
    | .ok value after => plain state.toChecking = .ok value after.toChecking
    | .error error after => plain state.toChecking = .error error after.toChecking

theorem projects_lift (plain : Check α) : Projects (lift plain) plain := by
  intro state
  simp only [lift]
  cases plain state.toChecking <;> rfl

theorem projects_bind {action : Action α} {plain : Check α} {next : α → Action β}
    {plainNext : α → Check β} (h : Projects action plain)
    (hnext : ∀ value, Projects (next value) (plainNext value)) :
    Projects (action >>= next) (plain >>= plainNext) := by
  intro state
  have hstate := h state
  simp only [bind, EStateM.bind]
  cases haction : action state with
  | error =>
    rw [haction] at hstate
    simp only at hstate ⊢
    rw [hstate]
  | ok value after =>
    rw [haction] at hstate
    simp only at hstate ⊢
    rw [hstate]
    exact hnext value after

theorem projects_inChild {action : Action Unit} {plain : Check Unit} (h : Projects action plain) :
    Projects (inChild action) (Check.inChild plain) := by
  intro state
  have hchild := h { state with scope := state.scope.child }
  simp only [inChild, Check.inChild]
  cases haction : action { state with scope := state.scope.child } with
  | error error after | ok value after => simp only [haction] at hchild ⊢; rw [hchild]

theorem projects_handOn (effects : Effects) :
    Projects (handOn .asNoted effects) (Check.modifyScope (·.apply effects)) :=
  fun _ => rfl

mutual

theorem projects_execute : ∀ stmt, Projects (execute .asNoted stmt) (Check.execute stmt)
  | .conditional expression body location => by
    rw [execute, Check.execute]
    refine projects_bind (projects_lift _) fun _ => ?_
    refine projects_bind (projects_inChild (projects_executeAll body)) fun level => ?_
    refine projects_bind (projects_lift _) fun kept => ?_
    exact projects_bind (projects_handOn _) fun _ => projects_lift _
  | .expression ..
  | .declaration ..
  | .assignment ..
  | .result ..
  | .function ..
  | .retain ..
  | .release .. => by simp only [execute]; exact projects_lift _

theorem projects_executeAll : ∀ block, Projects (executeAll .asNoted block) (Check.executeAll block)
  | [] => fun _ => rfl
  | stmt :: block => by
    rw [executeAll, Check.executeAll]
    exact projects_bind (projects_execute stmt) fun _ => projects_executeAll block

end

theorem projects_functionBody (signature : Signature) (function : FunctionDef) :
    Projects (functionBody .asNoted signature function)
      (Check.functionBody signature function) := by
  unfold functionBody Check.functionBody
  refine projects_bind (projects_lift _) fun _ => ?_
  refine projects_bind (projects_lift _) fun _ => ?_
  refine projects_bind (projects_executeAll _) fun _ => ?_
  refine projects_bind (projects_lift _) fun _ => ?_
  intro state
  exact projects_lift (Check.finish state.scope.own) state

theorem checkFunction_asNoted (file : Scope) (function : FunctionDef) :
    (checkFunction .asNoted file function).report = function.check file := by
  unfold checkFunction FunctionDef.check
  cases file.signature? function.name with
  | none => rfl
  | some signature =>
    have h := projects_functionBody signature function { scope := file.child }
    simp only
    cases hbody : functionBody .asNoted signature function { scope := file.child } with
    | ok body state | error error state => rw [hbody] at h; simp only at h ⊢; rw [h]

theorem checkFunctions_asNoted (file : Scope) (functions : List FunctionDef) :
    (checkFunctions (fun _ => .asNoted) file functions).report =
      FunctionDef.checkAll file functions := by
  induction functions with
  | nil => rfl
  | cons function functions ih =>
    have hfirst := checkFunction_asNoted file function
    unfold checkFunctions FunctionDef.checkAll
    rw [← hfirst, ← ih]
    rcases hcheck : checkFunction .asNoted file function with ⟨⟨_ | checked, warnings⟩, lost⟩
    · rfl
    · rfl

/-- **Checking takes effects as they were noted.** With that order, checking with an order reports
what checking does. -/
theorem check_asNoted (program : Program) :
    (check (fun _ => .asNoted) program).report = program.check := by
  unfold check Program.check
  cases program.functions with
  | error => rfl
  | ok functions =>
    simp only
    cases Program.fileScope functions with
    | error => rfl
    | ok => simp only [checkFunctions_asNoted]

end Ordered

end FrontEnd
