import FrontEnd.Proofs.Layout.Unplaced
import FrontEnd.Proofs.Scope.Deferred

/-!
# Programs are checked the same wherever they stand

A check goes by names, by types and by the order of statements. Places are put into tables, into
errors and into warnings, and never taken out again to decide something. So if all places of a
program are moved, checking it says what checking the program says, with the places moved just the
same (`Direct.check_moved`): it is accepted or not, for the same error, and with the same warnings
in the same order. When everything is moved to one place, this says that no place decides anything.
When nothing of the program is moved, it says that reports have no places but those of the program.

The statement is proved for checking with one stack of bodies, which is the same as checking with
deferred effects (`Ordered.check_eq_direct_check`). Every action on the stack does after moving what
it does without (`Direct.Mimics`), and so does declaring the functions of a file
(`Scope.alike_declareFunction`).
-/

namespace FrontEnd

open List

/-! ### Moving -/

section Moved

variable (move : Location → Location)

def Name.moved (name : Name) : Name := ⟨name.text, move name.location⟩

mutual

def Expr.moved : Expr → Expr
  | .name n => .name (n.moved move)
  | .integer digits location => .integer digits (move location)
  | .string text location => .string text (move location)
  | .call function arguments location =>
    .call function.moved (Expr.movedAll arguments) (move location)

def Expr.movedAll : List Expr → List Expr
  | [] => []
  | expression :: expressions => expression.moved :: Expr.movedAll expressions

end

def Parameter.moved (parameter : Parameter) : Parameter :=
  ⟨parameter.type.moved move, parameter.name.moved move⟩

mutual

def Stmt.moved : Stmt → Stmt
  | .expression value location => .expression (value.moved move) (move location)
  | .declaration type name location => .declaration (type.moved move) name (move location)
  | .assignment target value location =>
    .assignment (target.moved move) (value.moved move) (move location)
  | .conditional condition body location =>
    .conditional (condition.moved move) (Stmt.movedAll body) (move location)
  | .result value location => .result (value.moved move) (move location)
  | .function name parameters returnType body location =>
    .function name (parameters.map (Parameter.moved move)) (returnType.map (Name.moved move))
      (Stmt.movedAll body) (move location)
  | .retain name location => .retain name (move location)
  | .release name location => .release name (move location)

def Stmt.movedAll : List Stmt → List Stmt
  | [] => []
  | stmt :: block => stmt.moved :: Stmt.movedAll block

end

def FunctionDef.moved (function : FunctionDef) : FunctionDef :=
  ⟨function.name, function.parameters.map (Parameter.moved move),
    function.returnType.map (Name.moved move), Stmt.movedAll move function.body,
    move function.location⟩

/-- An error and the error with its place moved. The lack of a `main` function has no place. -/
inductive Error.Moved : Error → Error → Prop
  | located (cause : Cause) (location : Location) :
    Moved (cause.located location) (cause.located (move location))
  | noMain : Moved Cause.noMainFunction.unlocated Cause.noMainFunction.unlocated

def Warning.moved (warning : Warning) : Warning := ⟨warning.concern, move warning.location⟩

def Variable.moved (v : Variable) : Variable := { v with definedAt := v.definedAt.map move }

def Table.moved (table : Table) : Table := table.map (Prod.map id (Variable.moved move))

def Level.moved (level : Level) : Level := { level with table := level.table.moved move }

def Scope.moved (scope : Scope) : Scope :=
  ⟨scope.own.moved move, scope.enclosing.map (Level.moved move)⟩

end Moved

section Moved

variable {move : Location → Location}

@[simp] theorem Expr.location_moved (expression : Expr) :
    (expression.moved move).location = move expression.location := by
  cases expression <;> rw [moved] <;> rfl

@[simp] theorem Expr.isCall_moved (expression : Expr) :
    (expression.moved move).isCall = expression.isCall := by
  cases expression <;> rw [moved] <;> rfl

mutual

theorem Expr.moved_nowhere :
    ∀ expression : Expr, expression.moved (fun _ => .nowhere) = expression.unplaced
  | .name _ => by rw [Expr.moved, Expr.unplaced]; rfl
  | .integer .. | .string .. => by rw [Expr.moved, Expr.unplaced]
  | .call function arguments _ => by
    rw [Expr.moved, Expr.unplaced, Expr.moved_nowhere function, Expr.movedAll_nowhere arguments]

theorem Expr.movedAll_nowhere : ∀ expressions : List Expr,
    Expr.movedAll (fun _ => .nowhere) expressions = Expr.unplacedAll expressions
  | [] => by rw [Expr.movedAll, Expr.unplacedAll]
  | expression :: expressions => by
    rw [Expr.movedAll, Expr.unplacedAll, Expr.moved_nowhere expression,
      Expr.movedAll_nowhere expressions]

end

mutual

theorem Stmt.moved_nowhere : ∀ stmt : Stmt, stmt.moved (fun _ => .nowhere) = stmt.unplaced
  | .conditional condition body _ => by
    rw [Stmt.moved, Stmt.unplaced, condition.moved_nowhere, Stmt.movedAll_nowhere body]
  | .function _ parameters returnType body _ => by
    rw [Stmt.moved, Stmt.unplaced, Stmt.movedAll_nowhere body]
    rfl
  | .expression .. | .declaration .. | .assignment .. | .result .. | .retain .. | .release .. => by
    simp [Stmt.moved, Stmt.unplaced, Expr.moved_nowhere, Name.moved, Name.unplaced]

theorem Stmt.movedAll_nowhere :
    ∀ block : List Stmt, Stmt.movedAll (fun _ => .nowhere) block = Stmt.unplacedAll block
  | [] => by rw [Stmt.movedAll, Stmt.unplacedAll]
  | stmt :: block => by
    rw [Stmt.movedAll, Stmt.unplacedAll, Stmt.moved_nowhere stmt, Stmt.movedAll_nowhere block]

end

theorem Stmt.movedAll_eq_map (block : List Stmt) :
    Stmt.movedAll move block = block.map (Stmt.moved move) := by
  induction block with
  | nil => rw [Stmt.movedAll, map_nil]
  | cons stmt block ih => rw [Stmt.movedAll, ih, map_cons]

theorem Stmt.toFunctionDef?_moved (stmt : Stmt) :
    (stmt.moved move).toFunctionDef? = stmt.toFunctionDef?.map (FunctionDef.moved move) := by
  cases stmt <;> rw [moved] <;> simp [toFunctionDef?, FunctionDef.moved]

theorem Stmt.location_moved (stmt : Stmt) : (stmt.moved move).location = move stmt.location := by
  cases stmt <;> rw [moved] <;> rfl

theorem endsWithResult_movedAll (block : List Stmt) :
    endsWithResult (Stmt.movedAll move block) = endsWithResult block := by
  unfold endsWithResult
  rw [Stmt.movedAll_eq_map, getLast?_map]
  cases hlast : block.getLast? with
  | none => rfl
  | some stmt => cases stmt <;> simp [Stmt.moved]

namespace Table

theorem lookup_moved (table : Table) (name : String) :
    (table.moved move).lookup name = (table.lookup name).map (Variable.moved move) := by
  induction table with
  | nil => rfl
  | cons entry table ih =>
    obtain ⟨other, old⟩ := entry
    change List.lookup name ((other, old.moved move) :: moved move table) = _
    rw [lookup_cons, lookup_cons, ih]
    split <;> rfl

theorem insert_moved (table : Table) (name : String) (new : Variable) :
    (table.insert name new).moved move = (table.moved move).insert name (new.moved move) := by
  induction table with
  | nil => rfl
  | cons entry table ih =>
    obtain ⟨other, old⟩ := entry
    change moved move (if other = name then _ else _) = if other = name then _ else _
    split
    · rfl
    · exact congrArg ((other, old.moved move) :: ·) ih

theorem adjust_moved (table : Table) (name : String) {change : Variable → Variable}
    (h : ∀ v, (change v).moved move = change (v.moved move)) :
    (table.adjust name change).moved move = (table.moved move).adjust name change := by
  unfold adjust moved
  rw [map_map, map_map]
  refine map_congr_left fun entry _ => ?_
  obtain ⟨other, old⟩ := entry
  change Prod.map id (Variable.moved move) (if other = name then _ else _) =
    if other = name then _ else _
  split
  · exact congrArg (Prod.mk other) (h old)
  · rfl

end Table

end Moved

namespace Direct

variable {move : Location → Location}

/-! ### Open bodies -/

/-- A body and the body with the places of its variables moved. The statements that are kept decide
nothing. -/
inductive Tier.Moved (move : Location → Location) : Tier → Tier → Prop
  | of (kind : ScopeKind) (table : Table) (returns : Option Ty) (output output' : List Stmt) :
    Moved move ⟨kind, table, returns, output⟩ ⟨kind, table.moved move, returns, output'⟩

theorem Tier.Moved.warnings {tier tier' : Tier} (h : tier.Moved move tier') :
    tier'.warnings = tier.warnings.map (Warning.moved move) := by
  obtain ⟨kind, table, returns⟩ := h
  unfold Tier.warnings Tier.unused Table.moved
  rw [filter_map, filterMap_map, map_filterMap]
  refine filterMap_congr fun entry _ => ?_
  obtain ⟨name, old⟩ := entry
  change Option.map _ (old.definedAt.map _) = Option.map _ (old.definedAt.map _)
  rw [Option.map_map, Option.map_map]
  rfl

/-- All open bodies with the places of their variables moved. -/
abbrev Stack.Moved (move : Location → Location) : Stack → Stack → Prop :=
  Forall₂ (Tier.Moved move)

namespace Stack.Moved

variable {stack stack' : Stack}

section

variable (h : stack.Moved move stack')
include h

theorem find (name : String) :
    stack'.find name = (stack.find name).map (Prod.map (Variable.moved move) id) := by
  induction h with
  | nil => rfl
  | cons htier _ ih =>
    obtain ⟨kind, table, returns⟩ := htier
    rw [Stack.find, Stack.find, Table.lookup_moved, ih]
    cases table.lookup name <;> rfl

theorem clash (name : String) :
    stack'.clash name = (stack.clash name).map (Variable.moved move) := by
  cases h with
  | nil => rfl
  | cons htier houter =>
    obtain ⟨kind, table, returns⟩ := htier
    rw [Stack.clash, Stack.clash, Table.lookup_moved, Moved.find houter name]
    cases table.lookup name with
    | some => rfl
    | none =>
      cases Stack.find _ name with
      | none => rfl
      | some found =>
        obtain ⟨found, kind⟩ := found
        change (if kind = .inner then _ else _) = Option.map _ (if kind = .inner then _ else _)
        split <;> rfl

theorem update (name : String) {change : Variable → Variable}
    (hchange : ∀ v, (change v).moved move = change (v.moved move)) :
    (stack.update name change).Moved move (stack'.update name change) := by
  induction h with
  | nil => exact .nil
  | cons htier houter ih =>
    obtain ⟨kind, table, returns⟩ := htier
    rw [Stack.update, Stack.update, Table.lookup_moved]
    cases table.lookup name with
    | some =>
      rw [Option.map_some, ← Table.adjust_moved _ _ hchange]
      exact .cons (.of kind _ returns _ _) houter
    | none => exact .cons (.of kind table returns _ _) ih

theorem modifyTop {change change' : Tier → Tier}
    (hchange : ∀ tier tier', tier.Moved move tier' → (change tier).Moved move (change' tier')) :
    (stack.modifyTop change).Moved move (stack'.modifyTop change') := by
  cases h with
  | nil => exact .nil
  | cons htier houter => exact .cons (hchange _ _ htier) houter

theorem push : stack.push.Moved move stack'.push := by
  cases h with
  | nil => exact .cons (.of .inner [] none [] []) .nil
  | cons htier houter =>
    obtain ⟨kind, table, returns⟩ := htier
    exact .cons (.of kind.child [] returns [] []) (.cons (.of kind table returns _ _) houter)

theorem returns : stack'.returns = stack.returns := by
  cases h with
  | nil => rfl
  | cons htier =>
    cases htier
    rfl

theorem headD : (stack.headD default).Moved move (stack'.headD default) := by
  cases h with
  | nil => exact .of _ [] none [] []
  | cons htier => exact htier

theorem tail : Stack.Moved move stack.tail stack'.tail := by
  cases h with
  | nil => exact .nil
  | cons _ houter => exact houter

end

end Stack.Moved

/-- A state of checking and the state with its places moved. -/
structure State.Moved (move : Location → Location) (state state' : State) : Prop where
  stack : state.stack.Moved move state'.stack
  warnings : state'.warnings = state.warnings.map (Warning.moved move)

section Actions

variable {α β γ δ : Type}

/-- How two actions end that do the same but for places. -/
inductive Ends (move : Location → Location) (value : α → β → Prop) :
    EStateM.Result Error State α → EStateM.Result Error State β → Prop
  | ok {result : α} {result' : β} {state state' : State} (hvalue : value result result')
    (hstate : state.Moved move state') : Ends move value (.ok result state) (.ok result' state')
  | error {error error' : Error} {state state' : State} (herror : error.Moved move error')
    (hstate : state.Moved move state') : Ends move value (.error error state) (.error error' state')

/-- **Doing after moving what an action does without.** -/
def Mimics (move : Location → Location) (value : α → β → Prop) (action : Action α)
    (other : Action β) : Prop :=
  ∀ state state', state.Moved move state' → Ends move value (action state) (other state')

variable {value : α → β → Prop} {value' : γ → δ → Prop} {action : Action α} {other : Action β}

theorem mimics_pure {result : α} {result' : β} (h : value result result') :
    Mimics move value (pure result) (pure result') :=
  fun _ _ hstate => .ok h hstate

theorem mimics_done (result : α) : Mimics move Eq (pure result) (pure result) :=
  mimics_pure rfl

theorem mimics_throw (cause : Cause) (location : Location) :
    Mimics move value (throw (cause.located location)) (throw (cause.located (move location))) :=
  fun _ _ hstate => .error (.located cause location) hstate

namespace Mimics

/-- One action after the other. -/
protected theorem bind {next : α → Action γ} {next' : β → Action δ}
    (h : Mimics move value action other)
    (hnext : ∀ result result',
      value result result' → Mimics move value' (next result) (next' result')) :
    Mimics move value' (action >>= next) (other >>= next') := by
  intro state state' hstate
  have hends := h _ _ hstate
  simp only [Bind.bind, EStateM.bind]
  generalize action state = ended, other state' = ended' at hends
  cases hends with
  | ok hvalue hafter => exact hnext _ _ hvalue _ _ hafter
  | error herror hafter => exact .error herror hafter

/-- An action that returns the same both times comes first. -/
theorem andThen {action other : Action α} {next : α → Action γ} {next' : α → Action δ}
    (h : Mimics move Eq action other)
    (hnext : ∀ result, Mimics move value' (next result) (next' result)) :
    Mimics move value' (action >>= next) (other >>= next') :=
  h.bind fun result _ heq => heq ▸ hnext result

/-- A way that both actions take. -/
protected theorem ite {condition : Prop} [Decidable condition] {yes no : Action α}
    {yes' no' : Action β} (hyes : Mimics move value yes yes') (hno : Mimics move value no no') :
    Mimics move value (if condition then yes else no) (if condition then yes' else no') := by
  split
  · exact hyes
  · exact hno

end Mimics

theorem mimics_get : Mimics move (State.Moved move) get get :=
  fun _ _ hstate => .ok hstate hstate

theorem mimics_modifyStack {change change' : Stack → Stack}
    (h : ∀ stack stack', stack.Moved move stack' → (change stack).Moved move (change' stack')) :
    Mimics move Eq (modifyStack change) (modifyStack change') :=
  fun _ _ hstate => .ok rfl ⟨h _ _ hstate.stack, hstate.warnings⟩

theorem mimics_warn {warnings warnings' : List Warning}
    (h : warnings' = warnings.map (Warning.moved move)) :
    Mimics move Eq (warn warnings) (warn warnings') := by
  refine fun _ _ hstate => .ok rfl ⟨hstate.stack, ?_⟩
  change _ ++ _ = List.map _ (_ ++ _)
  rw [map_append, h, hstate.warnings]

theorem mimics_modifyTop {change change' : Tier → Tier}
    (h : ∀ tier tier', tier.Moved move tier' → (change tier).Moved move (change' tier')) :
    Mimics move Eq (modifyStack (·.modifyTop change)) (modifyStack (·.modifyTop change')) :=
  mimics_modifyStack fun _ _ hstack => hstack.modifyTop h

theorem mimics_emit (stmt stmt' : Stmt) : Mimics move Eq (emit stmt) (emit stmt') := by
  refine mimics_modifyTop fun _ _ htier => ?_
  obtain ⟨kind, table, returns⟩ := htier
  exact .of kind table returns _ _

theorem mimics_declare (name : String) (new : Variable) :
    Mimics move Eq (declare name new) (declare name (new.moved move)) := by
  refine mimics_modifyTop fun _ _ htier => ?_
  obtain ⟨kind, table, returns⟩ := htier
  rw [← Table.insert_moved]
  exact .of kind _ returns _ _

theorem mimics_update (name : String) {change : Variable → Variable}
    (h : ∀ v, (change v).moved move = change (v.moved move)) :
    Mimics move Eq (modifyStack (·.update name change)) (modifyStack (·.update name change)) :=
  mimics_modifyStack fun _ _ hstack => hstack.update name h

/-! ### Names and expressions -/

theorem mimics_resolve (name : Name) :
    Mimics move Eq (resolve name) (resolve (name.moved move)) := by
  refine mimics_get.bind fun state state' hstate => ?_
  have hfind : state'.stack.find (name.moved move).text = _ := hstate.stack.find name.text
  rw [hfind]
  -- the variable that is found has the same type and the same marks, only its place is another
  cases state.stack.find name.text with
  | none => exact mimics_throw _ _
  | some found => exact .ite (mimics_done found.1.entity) (mimics_throw _ _)

theorem mimics_readName (name : Name) :
    Mimics move Eq (readName name) (readName (name.moved move)) := by
  refine (mimics_resolve name).andThen fun entity => (mimics_update name.text ?_).andThen fun _ =>
    mimics_done entity
  exact fun _ => rfl

theorem mimics_typeNamed (name : Name) :
    Mimics move Eq (typeNamed name) (typeNamed (name.moved move)) := by
  refine (mimics_resolve name).andThen fun entity => ?_
  cases entity with
  | type type => exact mimics_done type
  | value => exact mimics_throw _ _

theorem mimics_ensureFree (name : String) (location : Location) :
    Mimics move Eq (ensureFree name location) (ensureFree name (move location)) := by
  refine mimics_get.bind fun state state' hstate => ?_
  rw [hstate.stack.clash name]
  cases state.stack.clash name with
  | none => exact mimics_done ()
  | some => exact mimics_throw _ _

theorem mimics_needValue (location : Location) (entity : Option Entity) :
    Mimics move Eq (needValue location entity) (needValue (move location) entity) := by
  cases entity with
  | some entity => exact mimics_done entity
  | none => exact mimics_throw _ _

theorem mimics_applySignature (signature : Signature) (arguments : List Entity)
    (location : Location) :
    Mimics move Eq (applySignature signature arguments location) (applySignature signature arguments
      (move location)) :=
  .ite (mimics_done _) (mimics_throw _ _)

mutual

theorem mimics_infer :
    ∀ expression : Expr, Mimics move Eq (infer expression) (infer (expression.moved move))
  | .name name => by
    rw [Expr.moved, infer, infer, map_eq_pure_bind, map_eq_pure_bind]
    exact (mimics_readName name).andThen fun _ => mimics_done _
  | .integer .. | .string .. => by
    rw [Expr.moved, infer, infer]
    exact mimics_done _
  | .call function arguments location => by
    rw [Expr.moved, infer, infer, Expr.location_moved]
    refine (mimics_infer function).andThen fun entity =>
      (mimics_needValue _ entity).andThen fun callee => ?_
    cases callee.signature? with
    | none => exact mimics_throw _ _
    | some signature =>
      exact (mimics_inferArguments arguments).andThen fun entities =>
        mimics_applySignature signature entities location

theorem mimics_inferArguments : ∀ arguments : List Expr,
    Mimics move Eq (inferArguments arguments) (inferArguments (Expr.movedAll move arguments))
  | [] => by
    rw [Expr.movedAll]
    exact mimics_done []
  | argument :: arguments => by
    rw [Expr.movedAll, inferArguments, inferArguments, Expr.location_moved]
    refine (mimics_infer argument).andThen fun entity =>
      (mimics_needValue _ entity).andThen fun first => ?_
    exact (mimics_inferArguments arguments).andThen fun rest => mimics_done (first :: rest)

end

theorem mimics_inferValue (expression : Expr) :
    Mimics move Eq (inferValue expression) (inferValue (expression.moved move)) := by
  unfold inferValue
  rw [Expr.location_moved]
  exact (mimics_infer expression).andThen fun entity => mimics_needValue _ entity

/-! ### Statements -/

theorem mimics_declareVariable (type : Name) (name : String) (location : Location) :
    Mimics move Eq (declareVariable type name location) (declareVariable (type.moved move) name
      (move location)) := by
  refine (mimics_ensureFree name location).andThen fun _ =>
    (mimics_typeNamed type).andThen fun found => ?_
  exact mimics_declare name ⟨.value found, some location, false, false⟩

/-- The value is only looked at for its type: whatever is wrong with it is not told. -/
theorem mimics_undeclared (target : Name) (found : Expr) (location : Location) :
    Mimics move Eq (undeclared target found location)
      (undeclared (target.moved move) (found.moved move) (move location)) := by
  intro state state' hstate
  have hvalue := mimics_inferValue found _ _ hstate
  unfold undeclared
  generalize inferValue found state = ended, inferValue (found.moved move) state' = ended' at hvalue
  cases hvalue with
  | error _ hafter => exact .error (.located _ location) hafter
  | @ok entity _ _ _ heq hafter =>
    cases heq
    cases entity with
    | type => exact .error (.located _ location) hafter
    | value type => cases type <;> exact .error (.located _ location) hafter

theorem mimics_assign (target : Name) (found : Expr) (location : Location) :
    Mimics move Eq (assign target found location) (assign (target.moved move) (found.moved move)
      (move location)) := by
  refine mimics_get.bind fun state state' hstate => ?_
  have hfind : state'.stack.find (target.moved move).text = _ := hstate.stack.find target.text
  rw [hfind]
  cases state.stack.find target.text with
  | none => exact mimics_undeclared target found location
  | some entry =>
    obtain ⟨old, kind⟩ := entry
    -- a name outside of bodies, a value of another type, or a value that is given
    refine .ite ?_ ((mimics_inferValue found).andThen fun received => .ite ?_ ?_)
    · change Mimics move Eq (throw (if old.entity.signature?.isSome then _ else _) >>= _)
        (throw (if old.entity.signature?.isSome then _ else _) >>= _)
      split <;> exact fun _ _ hstate => .error (.located _ _) hstate
    · exact fun _ _ hstate => .error (.located _ location) hstate
    · exact mimics_update target.text fun _ => rfl

theorem mimics_condition (expression : Expr) :
    Mimics move Eq (condition expression) (condition (expression.moved move)) := by
  unfold condition
  rw [Expr.location_moved]
  refine (mimics_inferValue expression).andThen fun received => ?_
  exact .ite (mimics_done ()) (mimics_throw _ _)

theorem mimics_returned (found : Expr) (location : Location) :
    Mimics move Eq (returned found location) (returned (found.moved move) (move location)) := by
  refine (mimics_inferValue found).andThen fun received =>
    mimics_get.bind fun state state' hstate => ?_
  rw [hstate.stack.returns]
  cases state.stack.returns with
  | none => exact mimics_throw _ _
  | some => exact .ite (mimics_done ()) (mimics_throw _ _)

theorem mimics_idle (expression : Expr) :
    Mimics move Eq (idle expression) (idle (expression.moved move)) := by
  cases expression with
  | name name =>
    rw [Expr.moved]
    exact (mimics_resolve name).andThen fun _ => mimics_done ()
  | integer | string | call => rw [Expr.moved]; exact mimics_done ()

theorem mimics_finish {tier tier' : Tier} (h : tier.Moved move tier') :
    Mimics move (fun _ _ => True) (finish tier) (finish tier') :=
  (mimics_warn h.warnings).andThen fun _ => mimics_pure trivial

theorem mimics_inBody {action other : Action Unit} (h : Mimics move Eq action other) :
    Mimics move (Tier.Moved move) (inBody action) (inBody other) := by
  refine (mimics_modifyStack fun _ _ hstack => hstack.push).andThen fun _ => h.andThen fun _ => ?_
  refine mimics_get.bind fun _ _ hstate =>
    (mimics_modifyStack fun _ _ hstack => hstack.tail).andThen fun _ => ?_
  exact mimics_pure hstate.stack.headD

mutual

theorem mimics_execute : ∀ stmt : Stmt, Mimics move Eq (execute stmt) (execute (stmt.moved move))
  | .declaration type name location => by
    rw [Stmt.moved, execute, execute]
    exact (mimics_declareVariable type name location).andThen fun _ => mimics_emit _ _
  | .assignment target value location => by
    rw [Stmt.moved, execute, execute]
    exact (mimics_assign target value location).andThen fun _ => mimics_emit _ _
  | .conditional expression body location => by
    rw [Stmt.moved, execute, execute]
    refine (mimics_condition expression).andThen fun _ =>
      (mimics_inBody (mimics_executeAll body)).bind ?_
    exact fun _ _ htier => (mimics_finish htier).bind fun _ _ _ => mimics_emit _ _
  | .result value location => by
    rw [Stmt.moved, execute, execute]
    exact (mimics_returned value location).andThen fun _ => mimics_emit _ _
  | .function .. => by
    rw [Stmt.moved, execute, execute]
    exact mimics_throw _ _
  | .expression expression location => by
    rw [Stmt.moved, execute, execute, Expr.isCall_moved]
    refine .ite ((mimics_infer expression).andThen fun _ => mimics_emit _ _) ?_
    exact (mimics_warn rfl).andThen fun _ => mimics_idle expression
  | .retain name location | .release name location => by
    rw [Stmt.moved, execute, execute]
    exact mimics_emit _ _

theorem mimics_executeAll : ∀ block : List Stmt,
    Mimics move Eq (executeAll block) (executeAll (Stmt.movedAll move block))
  | [] => by
    rw [Stmt.movedAll]
    exact mimics_done ()
  | stmt :: block => by
    rw [Stmt.movedAll, executeAll, executeAll]
    exact (mimics_execute stmt).andThen fun _ => mimics_executeAll block

end

/-! ### Functions -/

theorem mimics_declareParameters (parameters : List Parameter) (types : List Ty) :
    Mimics move Eq (declareParameters parameters types)
      (declareParameters (parameters.map (Parameter.moved move)) types) := by
  induction parameters generalizing types with
  | nil => exact mimics_done ()
  | cons parameter parameters ih =>
    cases types with
    | nil => exact mimics_done ()
    | cons type types =>
      have hdeclare :
          Mimics move Eq (declareParameter parameter type)
            (declareParameter (parameter.moved move) type) :=
        (mimics_ensureFree _ _).andThen fun _ =>
          mimics_declare _ ⟨.value type, some parameter.name.location, true, true⟩
      exact hdeclare.andThen fun _ => ih types

theorem mimics_ensureResult (returns : Option Ty) (function : FunctionDef) :
    Mimics move Eq (ensureResult returns function)
      (ensureResult returns (function.moved move)) := by
  cases returns with
  | none => exact mimics_done ()
  | some =>
    unfold ensureResult
    have hends : endsWithResult (function.moved move).body = _ :=
      endsWithResult_movedAll function.body
    rw [hends]
    exact .ite (mimics_done ()) (mimics_throw _ _)

theorem mimics_functionBody (signature : Signature) (function : FunctionDef) :
    Mimics move (fun _ _ => True) (functionBody signature function)
      (functionBody signature (function.moved move)) := by
  refine (mimics_modifyTop fun _ _ htier => ?_).andThen fun _ => ?_
  · obtain ⟨kind, table⟩ := htier
    exact .of kind table signature.returns _ _
  refine (mimics_declareParameters _ _).andThen fun _ =>
    (mimics_executeAll function.body).andThen fun _ => ?_
  refine (mimics_ensureResult _ function).andThen fun _ => mimics_get.bind fun _ _ hstate => ?_
  exact mimics_finish hstate.stack.headD

end Actions

end Direct

/-! ### Files -/

/-- A report and the report with its places moved. -/
inductive Report.Moved {α : Type} (move : Location → Location) :
    Report Error α → Report Error α → Prop
  | ok {result result' : α} {warnings : List Warning} :
    Moved move ⟨.ok result, warnings⟩ ⟨.ok result', warnings.map (Warning.moved move)⟩
  | error {error error' : Error} {warnings : List Warning} (h : error.Moved move error') :
    Moved move ⟨.error error, warnings⟩ ⟨.error error', warnings.map (Warning.moved move)⟩

namespace Report.Moved

variable {α : Type} {move : Location → Location} {report other : Report Error α}

theorem warnings (h : report.Moved move other) :
    other.warnings = report.warnings.map (Warning.moved move) := by
  cases h <;> rfl

theorem error_of_error (h : report.Moved move other) {error : Error}
    (herror : report.result = .error error) :
    ∃ error', other.result = .error error' ∧ error.Moved move error' := by
  cases h with
  | ok => cases herror
  | error h =>
    obtain rfl := Except.error.inj herror
    exact ⟨_, rfl, h⟩

end Report.Moved

section Files

variable (move : Location → Location)

namespace Direct

variable {move} {file file' : Stack}

theorem moved_checkFunction (hfile : file.Moved move file') (function : FunctionDef) :
    (checkFunction file function).Moved move (checkFunction file' (function.moved move)) := by
  unfold checkFunction
  have hfind : file'.find (function.moved move).name = _ := hfile.find function.name
  rw [hfind]
  cases file.find function.name with
  | none => exact .error (.located _ _)
  | some entry =>
    obtain ⟨found, kind⟩ := entry
    have hentity : (found.moved move).entity = found.entity := rfl
    simp only [Option.map_some, Option.bind_some, Prod.map_apply, hentity]
    cases found.entity.signature? with
    | none => exact .error (.located _ _)
    | some signature =>
      have hends := mimics_functionBody signature function { stack := file.push }
        { stack := file'.push } ⟨hfile.push, rfl⟩
      dsimp only
      generalize functionBody signature function _ = ended,
        functionBody signature (function.moved move) _ = ended'
        at hends
      cases hends with
      | error herror hstate =>
        dsimp only
        rw [hstate.warnings]
        exact .error herror
      | ok _ hstate =>
        dsimp only
        rw [hstate.warnings]
        exact .ok

theorem moved_checkFunctions (hfile : file.Moved move file') (functions : List FunctionDef) :
    (checkFunctions file functions).Moved move
      (checkFunctions file' (functions.map (FunctionDef.moved move))) := by
  induction functions with
  | nil => exact .ok
  | cons function functions ih =>
    have hfirst := moved_checkFunction hfile function
    rw [map_cons, checkFunctions, checkFunctions]
    generalize checkFunction file function = first, checkFunction file' (function.moved move) =
      first' at hfirst
    generalize checkFunctions file functions = rest, checkFunctions file' _ = rest' at ih
    cases hfirst with
    | error h => exact .error h
    | ok =>
      cases ih with
      | error hrest =>
        dsimp only
        rw [← map_append]
        exact .error hrest
      | ok =>
        dsimp only
        rw [← map_append]
        exact .ok

end Direct

namespace Scope

/-- Declaring functions ends the same but for places. -/
abbrev Alike {α β : Type} (value : α → β) : Except Error α → Except Error β → Prop :=
  FrontEnd.Alike (Error.Moved move) value

variable {move}

theorem lookup_moved (scope : Scope) (name : String) : (scope.moved move).lookup name =
      (scope.lookup name).map fun binding =>
      { binding with found := binding.found.moved move } := by
  have hlevels : (scope.moved move).levels = scope.levels.map (Level.moved move) := rfl
  unfold lookup
  rw [hlevels]
  induction scope.levels with
  | nil => rfl
  | cons level levels ih =>
    rw [map_cons, findSome?_cons, findSome?_cons, ih]
    have htable : (level.moved move).table.lookup name = _ := level.table.lookup_moved name
    rw [htable]
    cases level.table.lookup name <;> rfl

theorem isInitialized_moved (scope : Scope) (name : String) (binding : Binding) :
    (scope.moved move).isInitialized name { binding with found := binding.found.moved move } =
      scope.isInitialized name binding := by
  have hlevels : (scope.moved move).levels = scope.levels.map (Level.moved move) := rfl
  unfold isInitialized
  rw [hlevels, takeWhile_map, any_map]
  rfl

theorem alike_ensureFree (scope : Scope) (name : String) (location : Location) :
    Alike move id (scope.ensureFree name location) ((scope.moved move).ensureFree name
      (move location)) := by
  unfold ensureFree
  rw [lookup_moved]
  cases scope.lookup name with
  | none => exact .ok ()
  | some => exact .ite (.ok ()) (.error (.located _ _))

theorem alike_typeNamed (scope : Scope) (name : Name) :
    Alike move id (scope.typeNamed name) ((scope.moved move).typeNamed (name.moved move)) := by
  have hresolve : Alike move
      (fun binding : Binding => { binding with found := binding.found.moved move })
      (scope.resolve name) ((scope.moved move).resolve (name.moved move)) := by
    unfold resolve
    have hlookup : (scope.moved move).lookup (name.moved move).text = _ :=
      scope.lookup_moved name.text
    rw [hlookup]
    cases scope.lookup name.text with
    | none => exact .error (.located _ _)
    | some binding =>
      simp only [Option.map_some]
      have h : (scope.moved move).isInitialized (name.moved move).text _ = _ :=
        scope.isInitialized_moved name.text binding
      rw [h]
      exact .ite (.ok binding) (.error (.located _ _))
  refine hresolve.bind fun binding => ?_
  obtain ⟨⟨entity, definedAt, initialized, used⟩, kind, depth⟩ := binding
  cases entity with
  | type type => exact .ok type
  | value => exact .error (.located _ _)

theorem declare_moved (scope : Scope) (name : String) (new : Variable) :
    (scope.declare name new).moved move = (scope.moved move).declare name (new.moved move) := by
  have htable : (scope.own.table.insert name new).moved move = _ :=
    scope.own.table.insert_moved name new
  simp only [declare, modifyOwn, Level.declare, moved, Level.moved, htable]

/-- The signature of a function has no place in it. -/
theorem alike_declareFunction (scope : Scope) (function : FunctionDef) :
    Alike move (moved move) (scope.declareFunction function)
      ((scope.moved move).declareFunction (function.moved move)) := by
  refine (alike_ensureFree scope function.name function.location).bind fun _ => ?_
  have hempty : (function.moved move).parameters.isEmpty = function.parameters.isEmpty := by
    simp [FunctionDef.moved]
  have hsome : (function.moved move).returnType.isSome = function.returnType.isSome := by
    simp [FunctionDef.moved]
  have hnames : (function.moved move).parameters.map (·.name.text) =
      function.parameters.map (·.name.text) := by
    simp [FunctionDef.moved, Parameter.moved, Name.moved]
  have hparameters :
      Alike move id (function.parameters.mapM fun parameter => scope.typeNamed parameter.type)
        ((function.moved move).parameters.mapM fun parameter =>
          (scope.moved move).typeNamed parameter.type) := by
    rw [← map_id_fun]
    refine .mapM (forall₂_map_right_iff.mpr ?_)
    exact forall₂_same.mpr fun parameter _ => alike_typeNamed scope parameter.type
  have hreturns : Alike move id (function.returnType.mapM scope.typeNamed)
      ((function.moved move).returnType.mapM (scope.moved move).typeNamed) := by
    change Alike move id _ (Option.mapM (scope.moved move).typeNamed
      (function.returnType.map (Name.moved move)))
    cases function.returnType with
    | none => exact .ok none
    | some type => exact (alike_typeNamed scope type).bind fun found => .ok (some found)
  -- what is done when nothing is wrong with the name and the parameters
  have hdeclare : Alike move (moved move) (do
        let parameters ← function.parameters.mapM fun parameter => scope.typeNamed parameter.type
        let returns ← function.returnType.mapM scope.typeNamed
        return scope.declare function.name
          ⟨.value (Signature.toTy ⟨function.name, parameters, returns⟩),
            some function.location, true, true⟩)
      (do
        let parameters ← (function.moved move).parameters.mapM fun parameter =>
          (scope.moved move).typeNamed parameter.type
        let returns ← (function.moved move).returnType.mapM (scope.moved move).typeNamed
        return (scope.moved move).declare function.name
          ⟨.value (Signature.toTy ⟨function.name, parameters, returns⟩),
            some (move function.location), true, true⟩) := by
    refine hparameters.bind fun parameters => hreturns.bind fun returns => ?_
    exact scope.declare_moved function.name
      ⟨.value (Signature.toTy ⟨function.name, parameters, returns⟩), some function.location,
        true, true⟩ ▸ .ok _
  have hwrong : ∀ cause : Cause, FrontEnd.Alike (Error.Moved move) (moved move)
      (.error (cause.located function.location))
      (.error (cause.located (move function.location))) :=
    fun cause => .error (.located cause _)
  rw [hempty, hsome, hnames]
  dsimp only
  cases (function.parameters.map (·.name.text)).find? _ with
  | some => exact .ite (.ite (hwrong _) (.ite (hwrong _) (hwrong _))) (hwrong _)
  | none => exact .ite (.ite (hwrong _) (.ite hdeclare (hwrong _))) hdeclare

theorem alike_ofFunctions (functions : List FunctionDef) :
    Alike move (moved move) (ofFunctions functions)
      (ofFunctions (functions.map (FunctionDef.moved move))) := by
  have hfold : ∀ scope : Scope, Alike move (moved move) (functions.foldlM declareFunction scope)
      ((functions.map (FunctionDef.moved move)).foldlM declareFunction (scope.moved move)) := by
    induction functions with
    | nil => exact fun scope => .ok scope
    | cons function functions ih =>
      intro scope
      rw [map_cons, foldlM_cons, foldlM_cons]
      exact (alike_declareFunction scope function).bind ih
  exact hfold builtin.child

end Scope

namespace Program

theorem alike_functions (program : Program) :
      Scope.Alike move (List.map (FunctionDef.moved move)) program.functions
        (functions (program.map (Stmt.moved move))) := by
  induction program with
  | nil => exact .ok []
  | cons stmt program ih =>
    rw [map_cons, functions, functions, Stmt.toFunctionDef?_moved, Stmt.location_moved]
    cases stmt.toFunctionDef? with
    | none => exact .error (.located _ _)
    | some => exact ih.map fun _ => rfl

theorem alike_fileScope (functions : List FunctionDef) :
      Scope.Alike move (Scope.moved move) (fileScope functions)
        (fileScope (functions.map (FunctionDef.moved move))) := by
  unfold fileScope
  rw [any_map]
  exact .ite (Scope.alike_ofFunctions functions) (.error .noMain)

end Program

theorem Direct.Stack.moved_ofScope (scope : Scope) :
    (ofScope scope).Moved move (ofScope (scope.moved move)) := by
  have hlevels : (scope.moved move).levels = scope.levels.map (Level.moved move) := rfl
  rw [ofScope, ofScope, hlevels, map_map]
  refine forall₂_map_left_iff.mpr (forall₂_map_right_iff.mpr (forall₂_same.mpr fun level _ => ?_))
  exact .of level.kind level.table level.returns _ _

/-- **Checking goes along with the places.** -/
theorem Direct.check_moved (program : Program) :
    (check program).Moved move (check (program.map (Stmt.moved move))) := by
  unfold check
  have hfunctions := Program.alike_functions move program
  generalize program.functions = found, Program.functions (program.map _) = found' at hfunctions ⊢
  cases hfunctions with
  | error h => exact .error h
  | ok functions =>
    dsimp only
    have hfile := Program.alike_fileScope move functions
    generalize Program.fileScope functions = file, Program.fileScope (functions.map _) =
      file' at hfile ⊢
    cases hfile with
    | error h => exact .error h
    | ok file =>
      have hreport := moved_checkFunctions (Stack.moved_ofScope move file) functions
      dsimp only
      generalize checkFunctions (Stack.ofScope file) functions = report,
        checkFunctions (Stack.ofScope (file.moved move)) _ = report' at hreport
      cases hreport with
      | error h => exact .error h
      | ok => exact .ok

end Files

end FrontEnd
