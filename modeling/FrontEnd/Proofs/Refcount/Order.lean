import FrontEnd.Proofs.Execution.Plain
import FrontEnd.Refcount.Lower

/-!
# The order in which arguments are evaluated

To lower a statement means to move the arguments on the heap that are no variables in front of it.
The calls among the other arguments stay where they are, so they come later than they would from
left to right. This is an evaluation in two stages, in which the arguments that are moved are the
eager ones (`heapFirst`).

It makes a difference only if a call that stays stands in front of an argument out of which a call
is moved. An expression in which this does not happen (`inOrder`) is evaluated from left to right
all the same (`agrees_eval_staged`).
-/

namespace FrontEnd.Refcount

/-- The type of the values of an expression that is no variable, as far as it has one. -/
def valueType (types : ReturnTypes) : Expr → Option String
  | .integer _ _ => some "Int"
  | .string _ _ => some "String"
  | .call (.name function) _ _ => (types.lookup function.text).join
  | _ => none

/-- Whether an argument is moved in front of its statement. -/
def heapFirst (types : ReturnTypes) (expression : Expr) : Bool :=
  (valueType types expression).any isHeap

mutual

/-- Whether a call is moved out of an argument, which may be the argument itself. -/
def movesCall (types : ReturnTypes) : Expr → Bool
  | .call function arguments location =>
    heapFirst types (.call function arguments location) || movesAnyCall types arguments
  | _ => false

/-- Whether a call is moved out of one of some arguments. -/
def movesAnyCall (types : ReturnTypes) : List Expr → Bool
  | [] => false
  | argument :: arguments => movesCall types argument || movesAnyCall types arguments

end

mutual

/-- Whether no call that stays where it is stands in front of an argument out of which a call is
moved. -/
def inOrder (types : ReturnTypes) : Expr → Bool
  | .call _ arguments _ => inOrderAll types arguments
  | _ => true

/-- The same for the arguments of a call. -/
def inOrderAll (types : ReturnTypes) : List Expr → Bool
  | [] => true
  | argument :: arguments =>
    inOrder types argument && inOrderAll types arguments &&
      (!argument.isCall || heapFirst types argument || !movesAnyCall types arguments)

end

/-- Whether all expressions of a program are in order. -/
def inOrderProgram (program : Program) : Bool :=
  (program.filterMap Stmt.toFunctionDef?).all fun function =>
    (Stmt.expressionsOfAll function.body).all (inOrder (.ofProgram program))

end FrontEnd.Refcount

namespace FrontEnd.Execution

open Refcount Machine

section Order

variable {excused : Halt → Prop} {setting : Setting} {program : Program} {types : ReturnTypes}
  {call call' : Machine.Caller Data Unit} {env env' : Env Data} {α : Type}
  {action : Run Data Unit α}

theorem pure_inj {value other : α} (h : (pure value : Run Data Unit α) = pure other) :
    value = other := by
  have := congrFun h ⟨[], (), {}⟩
  cases this
  rfl

mutual

/-- If no call is moved out of an expression, its first stage does nothing. -/
theorem settle_of_not_movesCall : ∀ {expression : Expr}, movesCall types expression = false →
    ∃ action, (plain setting program).settle (heapFirst types) call expression = pure action
  | .name name, h | .integer .., h | .string .., h => ⟨_, by rw [settle]⟩
  | .call function arguments location, h => by
    rw [movesCall, Bool.or_eq_false_iff] at h
    obtain ⟨actions, hactions⟩ := settleAll_of_not_movesAnyCall h.2
    exact ⟨_, by rw [settle, hactions, pure_bind]⟩

theorem settleAll_of_not_movesAnyCall :
    ∀ {arguments : List Expr}, movesAnyCall types arguments = false →
    ∃ actions, (plain setting program).settleAll (heapFirst types) call arguments = pure actions
  | [], h => ⟨_, by rw [settleAll]⟩
  | argument :: arguments, h => by
    rw [movesAnyCall, Bool.or_eq_false_iff] at h
    obtain ⟨action, haction⟩ := settle_of_not_movesCall h.1
    obtain ⟨actions, hactions⟩ := settleAll_of_not_movesAnyCall h.2
    -- only a literal is finished ahead of its turn, and that takes no step
    obtain ⟨advanced, hadvanced⟩ : ∃ advanced, advance (heapFirst types argument) action =
        (pure advanced : Run Data Unit _) := by
      cases argument with
      | name => exact ⟨action, rfl⟩
      | integer digits =>
        rw [settle] at haction
        obtain rfl := pure_inj haction
        exact ⟨pure (.object (.integer digits)), rfl⟩
      | string text =>
        rw [settle] at haction
        obtain rfl := pure_inj haction
        exact ⟨pure (.object (.text text)), rfl⟩
      | call =>
        rw [movesCall, Bool.or_eq_false_iff] at h
        rw [h.1.1]
        exact ⟨action, rfl⟩
    exact ⟨advanced :: actions, by
      rw [settleAll, haction, pure_bind, hadvanced, pure_bind, hactions, pure_bind]⟩

end

theorem holds_env_of_relates {fact : α → α → Prop}
    (h : Relates excused (Beside (Fixed env env)) action action fun value value' state state' =>
      fact value value' ∧ Beside (Fixed env env) state state') :
    Holds (·.env = env) action (fun _ state => state.env = env) fun _ => True := by
  intro state hstate
  have hafter := h state state ⟨⟨hstate, hstate⟩, rfl⟩
  cases haction : action state with
  | error => trivial
  | ok =>
    rw [haction] at hafter
    obtain ⟨_, _, -, -, ⟨henv, -⟩, -⟩ := hafter
    exact henv

/-- The first stage of arguments leaves the environment alone. -/
theorem holds_settleAll_env (hself : CallersAgree (fun _ => False) call call) (eager : Expr → Bool)
    (arguments : List Expr) :
    Holds (·.env = env) ((plain setting program).settleAll eager call arguments)
      (fun _ state => state.env = env) fun _ => True :=
  holds_env_of_relates (agrees_settleAll (fun _ => rfl) hself eager fun _ _ => rfl)

/-- What is done behind an action that leaves the environment alone may be told from the
environment. -/
theorem bind_congr_of_holds {β : Type} {next next' : α → Run Data Unit β}
    (h : Holds (·.env = env) action (fun _ state => state.env = env) fun _ => True)
    (hnext : ∀ value state, state.env = env → next value state = next' value state)
    {state : State Data Unit} (hstate : state.env = env) :
    (action >>= next) state = (action >>= next') state := by
  have hafter := h state hstate
  simp only [bind, EStateM.bind]
  cases haction : action state with
  | error => rfl
  | ok value after =>
    rw [haction] at hafter
    exact hnext value after hafter

mutual

/-- **An expression in order is evaluated from left to right**, though the arguments that are moved
come first. -/
theorem agrees_eval_staged (hcall : CallersAgree (· = .stuck) call call')
    (hself : CallersAgree (fun _ => False) call' call')
    (hfind : ∀ name, Env.find env' name = Env.find env name) : ∀ {expression : Expr},
    inOrder types expression = true →
    Agrees (· = .stuck) env env' ((plain setting program).eval call expression)
      ((plain setting program).staged (heapFirst types) call' expression)
  | .name name, h => by
    rw [eval, staged, settle, pure_bind]
    exact agrees_readName rfl (hfind _)
  | .integer .., h | .string .., h => by
    rw [eval, staged, settle, pure_bind]
    exact agrees_create _
  | .call function arguments location, h => by
    rw [inOrder] at h
    rw [eval, staged, settle]
    simp only [bind_assoc, pure_bind]
    rw [← bind_assoc]
    exact Relates.step (agrees_evalAll_staged hcall hself hfind h) fun values =>
      agrees_apply hcall (fun name _ => hfind name) values

theorem agrees_evalAll_staged (hcall : CallersAgree (· = .stuck) call call')
    (hself : CallersAgree (fun _ => False) call' call')
    (hfind : ∀ name, Env.find env' name = Env.find env name) : ∀ {arguments : List Expr},
    inOrderAll types arguments = true →
    Agrees (· = .stuck) env env' ((plain setting program).evalAll call arguments)
      ((plain setting program).settleAll (heapFirst types) call' arguments >>= finishAll)
  | [], h => by
    rw [evalAll, settleAll, pure_bind]
    exact matches_done
  | argument :: arguments, h => by
    simp only [inOrderAll, Bool.and_eq_true, Bool.or_eq_true, Bool.not_eq_true'] at h
    obtain ⟨⟨hfirst, hrest⟩, horder⟩ := h
    have hboth : Agrees (· = .stuck) env env' ((plain setting program).evalAll call
        (argument :: arguments)) (do
          let value ← (plain setting program).staged (heapFirst types) call' argument
          let values ← (plain setting program).settleAll (heapFirst types) call' arguments >>=
              finishAll
          return value :: values) := by
      rw [evalAll]
      refine Relates.step (agrees_eval_staged hcall hself hfind hfirst) fun value => ?_
      refine Relates.step (agrees_evalAll_staged hcall hself hfind hrest) fun values => ?_
      exact matches_done
    cases hheap : heapFirst types argument with
    | true =>
      rw [settleAll_cons_of_eager _ hheap]
      exact hboth
    | false =>
      cases hmoves : movesAnyCall types arguments with
      | false =>
        obtain ⟨actions, hactions⟩ : ∃ actions, (plain setting program).settleAll (heapFirst types)
            call' arguments = pure actions := settleAll_of_not_movesAnyCall hmoves
        rw [settleAll_cons_of_pure _ hheap hactions]
        exact hboth
      | true =>
        cases argument with
        | name name =>
          -- the name is read later, but there it is still the same
          rw [settleAll_cons_name _ hheap, evalAll, eval]
          have hrest' := agrees_evalAll_staged hcall hself hfind hrest
          rintro state state' ⟨⟨rfl, rfl⟩, hworld⟩
          rcases readName_plain_cases setting program state.env
            name.text with ⟨value, hread⟩ | hread
          · have hlate : ∀ actions after, after.env = state'.env →
                ((plain setting program).readName name.text >>= fun value =>
                  finishAll actions >>= fun values => pure (value :: values)) after =
                (finishAll actions >>= fun values => pure (value :: values)) after :=
              fun actions after hafter => bind_of_ok (hread after (by rw [hafter, hfind]))
            rw [bind_congr_of_holds (holds_settleAll_env hself _ _) hlate rfl, ← bind_assoc,
              bind_of_ok (hread state rfl)]
            exact Relates.step hrest' (fun values => matches_done) state state' ⟨⟨rfl, rfl⟩, hworld⟩
          · have hstuck := hread state rfl
            simp only [bind, EStateM.bind, hstuck]
            exact .inl trivial
        | integer | string => cases hheap
        | call => simp [hheap, hmoves, Expr.isCall] at horder

end

end Order

end FrontEnd.Execution
