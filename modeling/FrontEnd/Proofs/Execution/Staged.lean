import FrontEnd.Proofs.Execution.Logic

/-!
# Evaluation in two stages

Moving a value out of an expression into a statement in front changes the order in which things are
evaluated. To speak about such orders, an expression is evaluated in two stages here. The first
stage goes through the arguments of calls from left to right and evaluates those that are *eager*;
the second stage evaluates what is left, from left to right again. So an eager argument comes before
all arguments that are not eager, wherever they stand.

If all arguments are eager, nothing is left to the second stage but the outermost call, and this is
the evaluation from left to right (`staged_all`). What is proved for all choices of eager arguments
is therefore proved for it too.
-/

namespace FrontEnd.Execution.Machine

variable {ρ σ : Type} (machine : Machine ρ σ)

/-- Does what is left of some arguments, from left to right. -/
def finishAll : List (Run ρ σ (Value ρ)) → Run ρ σ (List (Value ρ))
  | [] => return []
  | action :: actions => do
    let value ← action
    let values ← finishAll actions
    return value :: values

/-- Does what is left of an argument at once, if it is eager. -/
def advance (eager : Bool) (action : Run ρ σ (Value ρ)) : Run ρ σ (Run ρ σ (Value ρ)) :=
  if eager then pure <$> action else pure action

mutual

/-- The first stage of an expression. It returns the second one. -/
def settle (eager : Expr → Bool) (call : Caller ρ σ) :
    Expr → Run ρ σ (Run ρ σ (Value ρ))
  | .name name => return machine.readName name.text
  | .integer digits _ => return machine.create (.integer digits)
  | .string text _ => return machine.create (.text text)
  | .call function arguments _ => do
    let actions ← settleAll eager call arguments
    return do
      let values ← finishAll actions
      apply call function values

/-- The first stage of the arguments of a call. Those that are eager are finished at once. -/
def settleAll (eager : Expr → Bool) (call : Caller ρ σ) :
    List Expr → Run ρ σ (List (Run ρ σ (Value ρ)))
  | [] => return []
  | argument :: arguments => do
    let action ← settle eager call argument
    let action ← advance (eager argument) action
    let actions ← settleAll eager call arguments
    return action :: actions

end

/-- Evaluation in two stages. -/
def staged (eager : Expr → Bool) : Strategy ρ σ := fun call expression => do
  let action ← machine.settle eager call expression
  action

theorem finishAll_pure (values : List (Value ρ)) :
    finishAll (values.map pure : List (Run ρ σ (Value ρ))) = pure values := by
  induction values with
  | nil => rfl
  | cons value values ih => simp only [List.map_cons, finishAll, ih, pure_bind]

section Arguments

variable {eager : Expr → Bool} {call : Caller ρ σ} {argument : Expr} {arguments : List Expr}

theorem finishAll_pure_cons (value : Value ρ) (actions : List (Run ρ σ (Value ρ))) :
    finishAll (pure value :: actions) = (do
      let values ← finishAll actions
      return value :: values) := by
  rw [finishAll, pure_bind]

/-- An eager argument comes before those behind it. -/
theorem settleAll_cons_of_eager (h : eager argument = true) :
    machine.settleAll eager call (argument :: arguments) >>= finishAll = (do
      let value ← machine.staged eager call argument
      let values ← machine.settleAll eager call arguments >>= finishAll
      return value :: values) := by
  simp only [settleAll, staged, advance, h, if_true, map_eq_pure_bind, bind_assoc, pure_bind,
    finishAll_pure_cons]

/-- So does another argument, if nothing behind it is done in the first stage. -/
theorem settleAll_cons_of_pure {actions : List (Run ρ σ (Value ρ))} (h : eager argument = false)
    (hactions : machine.settleAll eager call arguments = pure actions) :
    machine.settleAll eager call (argument :: arguments) >>= finishAll = (do
      let value ← machine.staged eager call argument
      let values ← machine.settleAll eager call arguments >>= finishAll
      return value :: values) := by
  simp only [settleAll, staged, advance, h, Bool.false_eq_true, if_false, hactions, bind_assoc,
    pure_bind, finishAll]

/-- A name is read behind all that is done in the first stage. -/
theorem settleAll_cons_name {name : Name} (h : eager (.name name) = false) :
    machine.settleAll eager call (.name name :: arguments) >>= finishAll = (do
      let actions ← machine.settleAll eager call arguments
      let value ← machine.readName name.text
      let values ← finishAll actions
      return value :: values) := by
  simp only [settleAll, settle, advance, h, Bool.false_eq_true, if_false, bind_assoc,
    pure_bind, finishAll]

end Arguments

mutual

theorem settle_all (call : Caller ρ σ) : ∀ expression,
    (machine.settle (fun _ => true) call expression >>= fun action => action) =
      machine.eval call expression
  | .name name | .integer digits location | .string text location =>
    by simp only [settle, eval, pure_bind]
  | .call function arguments location => by
    simp only [settle, eval, settleAll_all call arguments, bind_assoc, map_eq_pure_bind, pure_bind,
      finishAll_pure]

theorem settleAll_all (call : Caller ρ σ) :
      ∀ arguments, machine.settleAll (fun _ => true) call arguments =
        (fun values => values.map pure) <$> machine.evalAll call arguments
  | [] => by simp only [settleAll, evalAll, map_pure, List.map_nil]
  | argument :: arguments => by
    have hfirst := settle_all call argument
    calc machine.settleAll (fun _ => true) call (argument :: arguments)
        = ((machine.settle (fun _ => true) call argument >>= fun action => action) >>= fun value =>
            machine.settleAll (fun _ => true) call arguments >>= fun actions =>
              pure (pure value :: actions)) := by
          simp only [settleAll, advance, if_true, bind_assoc, map_eq_pure_bind, pure_bind]
      _ = (fun values => values.map pure) <$> machine.evalAll call (argument :: arguments) := by
          simp only [hfirst, settleAll_all call arguments, evalAll, map_eq_pure_bind, bind_assoc,
            pure_bind, List.map_cons]

end

/-- If all arguments are eager, evaluation goes from left to right. -/
theorem staged_all : machine.staged (fun _ => true) = machine.eval := by
  funext call expression
  exact machine.settle_all call expression

end FrontEnd.Execution.Machine
