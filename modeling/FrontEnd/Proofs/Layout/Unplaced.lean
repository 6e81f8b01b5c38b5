import FrontEnd.Compile
import Mathlib.Data.List.Forall2

/-!
# Programs without places

The layout of a program is the places of its tokens: lines, columns, blanks and comments in between.
Everything that is read from it, every error and every warning carries places, and what is left when
all of them are one and the same is the program *unplaced*. A place decides nothing, which is shown
step by step: a step that is taken from something unplaced gives what the step gives, unplaced.

Here is what all the steps share. For steps that are actions, there is a relation between an action
and what it becomes without places (`View.Mimics`), and for steps that just succeed or fail there is
one between their outcomes (`Alike`). Both are built up along with what they are about, by rules for
doing one thing after the other and for choosing a way.
-/

namespace FrontEnd

/-! ### Trees, errors and warnings -/

/-- The place of everything that is unplaced. -/
def Location.nowhere : Location := ⟨0, 0, none⟩

@[simp] theorem Location.ofBareCall_nowhere : nowhere.ofBareCall nowhere = nowhere := rfl

def Name.unplaced (name : Name) : Name := ⟨name.text, .nowhere⟩

mutual

def Expr.unplaced : Expr → Expr
  | .name n => .name n.unplaced
  | .integer digits _ => .integer digits .nowhere
  | .string text _ => .string text .nowhere
  | .call function arguments _ => .call function.unplaced (Expr.unplacedAll arguments) .nowhere

def Expr.unplacedAll : List Expr → List Expr
  | [] => []
  | expression :: expressions => expression.unplaced :: Expr.unplacedAll expressions

end

def Parameter.unplaced (parameter : Parameter) : Parameter :=
  ⟨parameter.type.unplaced, parameter.name.unplaced⟩

mutual

def Stmt.unplaced : Stmt → Stmt
  | .expression value _ => .expression value.unplaced .nowhere
  | .declaration type name _ => .declaration type.unplaced name .nowhere
  | .assignment target value _ => .assignment target.unplaced value.unplaced .nowhere
  | .conditional condition body _ =>
    .conditional condition.unplaced (Stmt.unplacedAll body) .nowhere
  | .result value _ => .result value.unplaced .nowhere
  | .function name parameters returnType body _ =>
    .function name (parameters.map Parameter.unplaced) (returnType.map Name.unplaced)
      (Stmt.unplacedAll body) .nowhere
  | .retain name _ => .retain name .nowhere
  | .release name _ => .release name .nowhere

def Stmt.unplacedAll : List Stmt → List Stmt
  | [] => []
  | stmt :: block => stmt.unplaced :: Stmt.unplacedAll block

end

def Program.unplaced (program : Program) : Program := program.map Stmt.unplaced

def FunctionDef.unplaced (function : FunctionDef) : FunctionDef :=
  ⟨function.name, function.parameters.map Parameter.unplaced, function.returnType.map Name.unplaced,
    function.body.map Stmt.unplaced, .nowhere⟩

def Token.unplaced (token : Token) : Token := ⟨token.kind, token.value, .nowhere⟩

/-- An error without its place. Whether there was one is still told. -/
def Error.unplaced (error : Error) : Error := ⟨error.cause, error.location.map fun _ => .nowhere⟩

def Stop.unplaced : Stop → Stop
  | .error e => .error e.unplaced
  | .fault f => .fault f

def Warning.unplaced (warning : Warning) : Warning := ⟨warning.concern, .nowhere⟩

/-- A report without places, if its errors and its outcome have none. -/
def Report.unplaced {ε α : Type} (stop : ε → ε) (value : α → α)
    (report : Report ε α) : Report ε α :=
  ⟨(report.result.mapError stop).map value, report.warnings.map Warning.unplaced⟩

@[simp] theorem Error.unplaced_unplaced (error : Error) :
    error.unplaced.unplaced = error.unplaced := by
  simp [unplaced, Function.comp_def]

@[simp] theorem Error.isEndOfFile_unplaced (error : Error) :
    error.unplaced.isEndOfFile = error.isEndOfFile := rfl

theorem Error.isEndOfFile_of_unplaced {error error' : Error}
    (h : error'.unplaced = error.unplaced) :
    error'.isEndOfFile = error.isEndOfFile := by
  rw [← error'.isEndOfFile_unplaced, h, error.isEndOfFile_unplaced]

@[simp] theorem Expr.unplacedAll_eq_map (expressions : List Expr) :
    Expr.unplacedAll expressions = expressions.map Expr.unplaced := by
  induction expressions with
  | nil => rw [Expr.unplacedAll, List.map_nil]
  | cons expression expressions ih => rw [Expr.unplacedAll, ih, List.map_cons]

@[simp] theorem Stmt.unplacedAll_eq_map (block : List Stmt) :
    Stmt.unplacedAll block = block.map Stmt.unplaced := by
  induction block with
  | nil => rw [Stmt.unplacedAll, List.map_nil]
  | cons stmt block ih => rw [Stmt.unplacedAll, ih, List.map_cons]

theorem Expr.unplaced_call (function : Expr) (arguments : List Expr) (location : Location) :
    (Expr.call function arguments location).unplaced =
      .call function.unplaced (arguments.map Expr.unplaced) .nowhere := by
  rw [unplaced, unplacedAll_eq_map]

theorem Stmt.unplaced_conditional (condition : Expr) (body : List Stmt) (location : Location) :
    (Stmt.conditional condition body location).unplaced =
      .conditional condition.unplaced (body.map Stmt.unplaced) .nowhere := by
  rw [unplaced, unplacedAll_eq_map]

theorem Stmt.unplaced_function (name : String) (parameters : List Parameter)
    (returnType : Option Name) (body : List Stmt) (location : Location) :
    (Stmt.function name parameters returnType body location).unplaced =
      .function name (parameters.map Parameter.unplaced) (returnType.map Name.unplaced)
        (body.map Stmt.unplaced) .nowhere := by
  rw [unplaced, unplacedAll_eq_map]

@[simp] theorem Expr.location_unplaced (expression : Expr) :
    expression.unplaced.location = .nowhere := by
  cases expression <;> rw [unplaced] <;> rfl

@[simp] theorem Expr.isCall_unplaced (expression : Expr) :
    expression.unplaced.isCall = expression.isCall := by
  cases expression <;> rw [unplaced] <;> rfl

@[simp] theorem Stmt.declares_unplaced (name : String) (stmt : Stmt) :
    stmt.unplaced.declares name = stmt.declares name := by
  cases stmt <;> rw [unplaced] <;> rfl

@[simp] theorem FunctionDef.toStmt_unplaced (function : FunctionDef) :
    function.unplaced.toStmt = function.toStmt.unplaced := by
  rw [toStmt, toStmt, Stmt.unplaced_function]
  rfl

@[simp] theorem Stmt.toFunctionDef?_unplaced (stmt : Stmt) :
    stmt.unplaced.toFunctionDef? = stmt.toFunctionDef?.map FunctionDef.unplaced := by
  cases stmt <;> rw [unplaced] <;> simp [toFunctionDef?, FunctionDef.unplaced]

@[simp] theorem endsWithResult_unplaced (block : List Stmt) :
    endsWithResult (block.map Stmt.unplaced) = endsWithResult block := by
  unfold endsWithResult
  rw [List.getLast?_map]
  cases hlast : block.getLast? with
  | none => rfl
  | some stmt => cases stmt <;> simp [Stmt.unplaced]

mutual

@[simp] theorem Expr.names_unplaced :
    ∀ expression : Expr, expression.unplaced.names = expression.names
  | .name n => by simp [Expr.unplaced, Expr.names, Name.unplaced]
  | .integer .. | .string .. => by simp [Expr.unplaced, Expr.names]
  | .call function arguments location => by
    rw [Expr.unplaced, Expr.names, Expr.names, Expr.names_unplaced function,
      Expr.namesOfAll_unplacedAll arguments]

theorem Expr.namesOfAll_unplacedAll : ∀ expressions : List Expr,
    Expr.namesOfAll (Expr.unplacedAll expressions) = Expr.namesOfAll expressions
  | [] => by simp [Expr.unplacedAll]
  | expression :: expressions => by
    rw [Expr.unplacedAll, Expr.namesOfAll, Expr.namesOfAll, Expr.names_unplaced expression,
      Expr.namesOfAll_unplacedAll expressions]

end

theorem Stmt.ofBareValue_unplaced (value : Expr) (location : Location) :
    (Stmt.ofBareValue value location).map Stmt.unplaced =
      Stmt.ofBareValue value.unplaced .nowhere := by
  unfold ofBareValue
  rw [Expr.isCall_unplaced]
  split
  · simp [unplaced]
  · rfl

/-! ### Actions -/

section Actions

variable {ε σ α β γ δ : Type}

/-- What states and errors of actions come to without places. -/
structure View (ε σ : Type) where
  state : σ → σ
  /-- Whether two errors are the same but for places. -/
  alike : ε → ε → Prop
  /-- The errors that only places can lead to. -/
  excused : ε → Prop

namespace View

/-- **Doing without places what an action does.** If the action succeeds, so does the other one from
the state without places, with the same outcome but for places. If it fails, the other one fails
alike, unless the error is one that only places can lead to. -/
structure Mimics (view : View ε σ) (value : α → β) (action : EStateM ε σ α)
    (other : EStateM ε σ β) : Prop where
  ok : ∀ {state after : σ} {result : α}, action state = .ok result after →
    other (view.state state) = .ok (value result) (view.state after)
  error : ∀ {state after : σ} {error : ε}, action state = .error error after →
    view.excused error ∨
      ∃ error', other (view.state state) = .error error' (view.state after) ∧
      view.alike error error'

namespace Mimics

variable {view : View ε σ} {value : α → β} {action : EStateM ε σ α} {other : EStateM ε σ β}
  {error error' : ε} {value' : γ → δ}

protected theorem pure (result : α) : view.Mimics value (pure result) (pure (value result)) where
  ok h := by cases h; rfl
  error h := by cases h

protected theorem throw (h : view.alike error error') :
    view.Mimics value (throw error) (throw error') where
  ok h := by cases h
  error hthrow := by cases hthrow; exact .inr ⟨error', rfl, h⟩

/-- Nothing is done behind an error. -/
theorem throw_bind (h : view.alike error error') {next : γ → EStateM ε σ α}
    {next' : δ → EStateM ε σ β} :
    view.Mimics value (throw error >>= next) (throw error' >>= next') where
  ok h := by cases h
  error hthrow := by cases hthrow; exact .inr ⟨error', rfl, h⟩

theorem throw_excused (h : view.excused error) : view.Mimics value (throw error) other where
  ok h := by cases h
  error hthrow := by cases hthrow; exact .inl h

protected theorem get : view.Mimics view.state get get where
  ok h := by cases h; rfl
  error h := by cases h

protected theorem set {state : σ} : view.Mimics id
    (set state : EStateM ε σ PUnit) (set (view.state state)) where
  ok h := by cases h; rfl
  error h := by cases h

/-- One action after the other. -/
protected theorem bind {next : α → EStateM ε σ γ} {next' : β → EStateM ε σ δ}
    (h : view.Mimics value action other)
    (hnext : ∀ result, view.Mimics value' (next result) (next' (value result))) :
    view.Mimics value' (action >>= next) (other >>= next') where
  ok {state after result} hbind := by
    simp only [Bind.bind, EStateM.bind] at hbind ⊢
    cases haction : action state with
    | ok first =>
      rw [haction] at hbind
      rw [h.ok haction]
      exact (hnext first).ok hbind
    | error => rw [haction] at hbind; cases hbind
  error {state after error} hbind := by
    simp only [Bind.bind, EStateM.bind] at hbind ⊢
    cases haction : action state with
    | ok first =>
      rw [haction] at hbind
      rw [h.ok haction]
      exact (hnext first).error hbind
    | error =>
      -- the first action failed, so the second one is done on neither side
      rw [haction] at hbind
      cases hbind
      refine (h.error haction).imp_right ?_
      rintro ⟨error', hother, halike⟩
      rw [hother]
      exact ⟨error', rfl, halike⟩

/-- What is made of an outcome. -/
protected theorem map {wrap : α → γ} {wrap' : β → δ} (h : view.Mimics value action other)
    (hwrap : ∀ result, wrap' (value result) = value' (wrap result)) :
    view.Mimics value' (wrap <$> action) (wrap' <$> other) := by
  rw [map_eq_pure_bind, map_eq_pure_bind]
  refine h.bind fun result => ?_
  rw [hwrap]
  exact .pure _

/-- A way that both actions take. -/
protected theorem ite {condition : Prop} [Decidable condition] {yes no : EStateM ε σ α}
    {yes' no' : EStateM ε σ β} (hyes : view.Mimics value yes yes')
    (hno : view.Mimics value no no') :
    view.Mimics value (if condition then yes else no) (if condition then yes' else no') := by
  split
  · exact hyes
  · exact hno

end Mimics

end View

end Actions

/-! ### Outcomes -/

section Outcomes

variable {ε α β γ δ : Type}

/-- An outcome and the outcome without places: the same value but for places, or errors that are
alike. -/
inductive Alike (alike : ε → ε → Prop) (value : α → β) : Except ε α → Except ε β → Prop
  | ok (result : α) : Alike alike value (.ok result) (.ok (value result))
  | error {error error' : ε} (h : alike error error') :
    Alike alike value (.error error) (.error error')

namespace Alike

variable {alike : ε → ε → Prop} {value : α → β} {value' : γ → δ} {result : Except ε α}
  {other : Except ε β}

protected theorem bind {next : α → Except ε γ} {next' : β → Except ε δ}
    (h : Alike alike value result other)
    (hnext : ∀ found, Alike alike value' (next found) (next' (value found))) :
    Alike alike value' (result >>= next) (other >>= next') := by
  cases h with
  | ok found => exact hnext found
  | error h => exact .error h

protected theorem ite {condition : Prop} [Decidable condition] {yes no : Except ε α}
    {yes' no' : Except ε β} (hyes : Alike alike value yes yes') (hno : Alike alike value no no') :
    Alike alike value (if condition then yes else no) (if condition then yes' else no') := by
  split
  · exact hyes
  · exact hno

protected theorem map {wrap : α → γ} {wrap' : β → δ} (h : Alike alike value result other)
    (hwrap : ∀ found, wrap' (value found) = value' (wrap found)) :
    Alike alike value' (result.map wrap) (other.map wrap') := by
  cases h with
  | ok found =>
    change Alike alike value' (.ok (wrap found)) (.ok (wrap' (value found)))
    rw [hwrap]
    exact .ok _
  | error h => exact .error h

/-- Outcomes that are alike one by one are alike when they are put together. -/
protected theorem mapM {act : γ → Except ε α} {act' : δ → Except ε β} {items : List γ}
    {others : List δ}
    (h : List.Forall₂ (fun item other => Alike alike value (act item) (act' other)) items others) :
    Alike alike (List.map value) (items.mapM act) (others.mapM act') := by
  induction h with
  | nil => exact .ok []
  | cons hfirst _ ih =>
    rw [List.mapM_cons, List.mapM_cons]
    exact hfirst.bind fun first => ih.bind fun rest => .ok (first :: rest)

end Alike

end Outcomes

end FrontEnd
