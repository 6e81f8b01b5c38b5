import FrontEnd.Proofs.Layout.Unplaced
import FrontEnd.Proofs.Refcount.Shape

/-!
# Programs are lowered the same wherever they stand

Making reference counts explicit goes by names and by types: which variables are counted, which
temporaries there are and what they are called, and where something is retained and released. A
variable of the lowering has a place, which goes into the statements that are added for it and
decides nothing. So lowering commutes with taking the places away (`Refcount.lower_unplaced`).

Lowering never fails, so that an action and the action without places are compared by what they
return and by the state they leave (`Refcount.Lower.Mimics`).
-/

namespace FrontEnd

open List

/-! ### Names -/

mutual

theorem Stmt.names_unplaced : ∀ stmt : Stmt, stmt.unplaced.names = stmt.names
  | .expression .. | .result .. | .retain .. | .release .. => by simp [Stmt.unplaced, Stmt.names]
  | .declaration .. | .assignment .. => by simp [Stmt.unplaced, Stmt.names, Name.unplaced]
  | .conditional condition body location => by
    rw [Stmt.unplaced, Stmt.names, Stmt.names, Expr.names_unplaced,
      Stmt.namesOfAll_unplacedAll body]
  | .function name parameters returnType body location => by
    rw [Stmt.unplaced, Stmt.names, Stmt.names, Stmt.namesOfAll_unplacedAll body, flatMap_map]
    rfl

theorem Stmt.namesOfAll_unplacedAll : ∀ block : List Stmt,
    Stmt.namesOfAll (Stmt.unplacedAll block) = Stmt.namesOfAll block
  | [] => by rw [Stmt.unplacedAll]
  | stmt :: block => by
    rw [Stmt.unplacedAll, Stmt.namesOfAll, Stmt.namesOfAll, Stmt.names_unplaced stmt,
      Stmt.namesOfAll_unplacedAll block]

end

theorem Expr.unplaced_ne_name {expression : Expr} (h : ∀ name, expression ≠ .name name)
    (name : Name) :
    expression.unplaced ≠ .name name := by
  cases expression with
  | name n => exact absurd rfl (h n)
  | integer | string | call => simp [Expr.unplaced]

namespace Refcount

/-! ### Variables and temporaries -/

def Local.unplaced (v : Local) : Local := { v with location := .nowhere }

theorem Local.use_unplaced (v : Local) : v.unplaced.use = v.use.unplaced := by
  simp [use, Expr.unplaced, Name.unplaced, unplaced]

theorem Local.release_unplaced (v : Local) : v.unplaced.release = v.release.unplaced := by
  simp [release, Stmt.unplaced, unplaced]

theorem releases_unplaced (locals : List Local) :
    releases (locals.map Local.unplaced) = (releases locals).map Stmt.unplaced := by
  unfold releases
  rw [filter_map, map_map, map_map]
  exact map_congr_left fun v _ => v.release_unplaced

namespace Frames

def unplaced (frames : Frames) : Frames := frames.map (List.map Local.unplaced)

theorem flatten_unplaced (frames : Frames) :
    frames.unplaced.flatten = frames.flatten.map Local.unplaced :=
  map_flatten.symm

theorem lookup_unplaced (frames : Frames) (name : String) :
    frames.unplaced.lookup name = (frames.lookup name).map Local.unplaced := by
  unfold lookup
  rw [flatten_unplaced, find?_map]
  rfl

theorem declare_unplaced (frames : Frames) (v : Local) :
    (frames.declare v).unplaced = frames.unplaced.declare v.unplaced := by
  cases frames <;> rfl

theorem releaseInnermost_unplaced (frames : Frames) :
    frames.unplaced.releaseInnermost = frames.releaseInnermost.map Stmt.unplaced := by
  cases frames with
  | nil => rfl
  | cons frame => exact releases_unplaced frame

theorem releaseAll_unplaced (frames : Frames) (keep : Option String) :
    frames.unplaced.releaseAll keep = (frames.releaseAll keep).map Stmt.unplaced := by
  cases keep with
  | none =>
    rw [releaseAll, releaseAll, flatten_unplaced, releases_unplaced]
  | some =>
    rw [releaseAll, releaseAll, flatten_unplaced, eraseP_map, releases_unplaced]
    rfl

end Frames

namespace Temp

def unplaced (temp : Temp) : Temp := ⟨temp.place.unplaced, temp.value.unplaced⟩

theorem setup_unplaced (temp : Temp) : temp.unplaced.setup = temp.setup.map Stmt.unplaced := by
  have hcopy : temp.unplaced.isCopy = temp.isCopy := by
    obtain ⟨place, value⟩ := temp
    cases value <;> simp [unplaced, isCopy, Expr.unplaced, Local.unplaced]
  unfold setup
  rw [hcopy]
  simp only [map_append]
  split <;> simp [unplaced, Local.unplaced, Stmt.unplaced, Name.unplaced]

theorem flatMap_setup_unplaced (temps : List Temp) :
    (temps.map unplaced).flatMap setup = (temps.flatMap setup).map Stmt.unplaced := by
  rw [flatMap_map, map_flatMap]
  exact flatMap_congr fun temp _ => temp.setup_unplaced

end Temp

/-! ### Actions -/

def Lowering.unplaced (state : Lowering) : Lowering :=
  { state with frames := state.frames.unplaced }

theorem Lowering.typeOf_unplaced (state : Lowering) (expression : Expr) :
    state.unplaced.typeOf expression.unplaced = state.typeOf expression := by
  cases expression with
  | name name =>
    rw [Expr.unplaced, typeOf, typeOf]
    have hlookup : state.unplaced.frames.lookup name.unplaced.text = _ :=
      state.frames.lookup_unplaced name.text
    rw [hlookup]
    cases state.frames.lookup name.text <;> rfl
  | integer | string => simp [Expr.unplaced, typeOf]
  | call function =>
    cases function <;> simp [Expr.unplaced, typeOf, unplaced, Name.unplaced]

theorem Lowering.heapTypeOf_unplaced (state : Lowering) (expression : Expr) :
    state.unplaced.heapTypeOf expression.unplaced = state.heapTypeOf expression := by
  rw [heapTypeOf, heapTypeOf, typeOf_unplaced]

namespace Lower

variable {α β γ δ : Type}

/-- Doing without places what an action does. -/
def Mimics (value : α → β) (action : Lower α) (other : Lower β) : Prop :=
  ∀ state : Lowering, other state.unplaced = (value (action state).1, (action state).2.unplaced)

namespace Mimics

variable {value : α → β} {action : Lower α} {other : Lower β}

protected theorem pure (result : α) : Mimics value (pure result) (pure (value result)) :=
  fun _ => rfl

theorem pure_of_eq {result : α} {other : β} (h : other = value result) :
    Mimics value (pure result) (pure other) :=
  h ▸ .pure result

protected theorem get : Mimics Lowering.unplaced get get := fun _ => rfl

protected theorem bind {next : α → Lower γ} {next' : β → Lower δ} {value' : γ → δ}
    (h : Mimics value action other)
    (hnext : ∀ result, Mimics value' (next result) (next' (value result))) :
    Mimics value' (action >>= next) (other >>= next') := by
  intro state
  simp only [Bind.bind, StateT.bind]
  rw [h state]
  exact hnext _ _

end Mimics

theorem mimics_modify {change change' : Lowering → Lowering}
    (h : ∀ state, change' state.unplaced = (change state).unplaced) :
    Mimics id (modify change) (modify change') :=
  fun state => congrArg (Prod.mk ()) (h state)

theorem mimics_makeTemp (value : Expr) (type : String) :
    Mimics Temp.unplaced (makeTemp value type) (makeTemp value.unplaced type) := by
  intro state
  simp only [makeTemp, Expr.location_unplaced]
  rfl

theorem mimics_declareAll (locals : List Local) :
    Mimics id (declareAll locals) (declareAll (locals.map Local.unplaced)) := by
  refine mimics_modify fun state => ?_
  have hframes (frames : Frames) :
      (locals.map Local.unplaced).foldl Frames.declare frames.unplaced =
        (locals.foldl Frames.declare frames).unplaced := by
    induction locals generalizing frames with
    | nil => rfl
    | cons v locals ih => rw [map_cons, foldl_cons, foldl_cons, ← Frames.declare_unplaced, ih]
  exact congrArg (Lowering.mk state.toContext) (hframes state.frames)

/-! ### Expressions -/

/-- What is moved to temporaries, and the temporaries, without places. -/
abbrev unplacedMove (moved : Expr × List Temp) : Expr × List Temp :=
  (moved.1.unplaced, moved.2.map Temp.unplaced)

theorem mimics_settle (argument : Expr) (temps : List Temp) :
    Mimics unplacedMove (settle argument temps)
      (settle argument.unplaced (temps.map Temp.unplaced)) := by
  refine Mimics.get.bind fun state => ?_
  rw [Lowering.heapTypeOf_unplaced]
  cases state.heapTypeOf argument with
  | none => exact .pure (argument, temps)
  | some type =>
    refine (mimics_makeTemp argument type).bind fun temp => ?_
    refine .pure_of_eq ?_
    rw [unplacedMove, map_append, map_singleton]
    exact congrArg (Prod.mk · _) temp.place.use_unplaced

mutual

theorem mimics_hoist :
    ∀ expression : Expr, Mimics unplacedMove (hoist expression) (hoist expression.unplaced)
  | .call function arguments location => by
    rw [Expr.unplaced, hoist, hoist]
    refine (mimics_hoistArguments arguments).bind fun moved => ?_
    refine .pure_of_eq ?_
    rw [unplacedMove, Expr.unplaced_call]
  | .name n => by
    rw [Expr.unplaced]
    exact .pure (Expr.name n, [])
  | .integer digits location => by
    rw [Expr.unplaced]
    exact .pure (Expr.integer digits location, [])
  | .string text location => by
    rw [Expr.unplaced]
    exact .pure (Expr.string text location, [])

theorem mimics_hoistArguments : ∀ arguments : List Expr,
    Mimics (fun moved => (moved.1.map Expr.unplaced, moved.2.map Temp.unplaced))
      (hoistArguments arguments) (hoistArguments (Expr.unplacedAll arguments))
  | [] => by
    rw [Expr.unplacedAll]
    exact .pure ([], [])
  | argument :: arguments => by
    rw [Expr.unplacedAll]
    rcases argument.name_or_ne with ⟨name, rfl⟩ | hother
    · -- a variable is passed as it is
      rw [Expr.unplaced, hoistArguments, hoistArguments]
      exact (mimics_hoistArguments arguments).bind fun moved =>
        .pure (Expr.name name :: moved.1, moved.2)
    · rw [hoistArguments, hoistArguments]
      · refine (mimics_hoist argument).bind fun inner =>
          (mimics_settle inner.1 inner.2).bind fun settled => ?_
        refine (mimics_hoistArguments arguments).bind fun moved => .pure_of_eq ?_
        simp
      · simpa using Expr.unplaced_ne_name hother
      · simpa using hother

end

/-! ### Statements -/

theorem releaseTemps_unplaced (temps : List Temp) :
    releaseTemps (temps.map Temp.unplaced) = (releaseTemps temps).map Stmt.unplaced := by
  unfold releaseTemps
  rw [← map_reverse, map_map, map_map]
  exact map_congr_left fun temp _ => temp.place.release_unplaced

/-- Temporaries are set up in front of some statements and released behind them. -/
theorem mimics_around (temps : List Temp) {core core' : List Stmt}
    (h : core' = core.map Stmt.unplaced) :
    Mimics (List.map Stmt.unplaced) (pure (temps.flatMap Temp.setup ++ core ++ releaseTemps temps))
      (pure ((temps.map Temp.unplaced).flatMap Temp.setup ++ core' ++
        releaseTemps (temps.map Temp.unplaced))) := by
  refine .pure_of_eq ?_
  rw [h, map_append, map_append, Temp.flatMap_setup_unplaced, releaseTemps_unplaced]

theorem mimics_expression (value : Expr) (location : Location) :
    Mimics (List.map Stmt.unplaced) (expression value location)
      (expression value.unplaced .nowhere) := by
  refine (mimics_hoist value).bind fun moved => ?_
  obtain ⟨value, temps⟩ := moved
  refine Mimics.get.bind fun state => ?_
  dsimp only
  rw [Expr.isCall_unplaced, Lowering.heapTypeOf_unplaced]
  cases value.isCall with
  | false => exact mimics_around temps rfl
  | true =>
    cases state.heapTypeOf value with
    | none => exact mimics_around temps rfl
    | some type =>
      refine (mimics_makeTemp value type).bind fun unwanted => mimics_around temps ?_
      rw [map_append, Temp.setup_unplaced, map_singleton]
      exact congrArg (_ ++ [·]) unwanted.place.release_unplaced

theorem mimics_assignment (fresh : Bool) (target : Name) (value : Expr) (location : Location) :
    Mimics (List.map Stmt.unplaced) (assignment fresh target value location)
      (assignment fresh target.unplaced value.unplaced .nowhere) := by
  refine (mimics_hoist value).bind fun moved => ?_
  obtain ⟨value, temps⟩ := moved
  refine Mimics.get.bind fun state => ?_
  have hcounted :
      (state.unplaced.frames.lookup target.unplaced.text).filter (fun v => isHeap v.type) =
        ((state.frames.lookup target.text).filter (fun v => isHeap v.type)).map Local.unplaced := by
    have hlookup : state.unplaced.frames.lookup target.unplaced.text = _ :=
      state.frames.lookup_unplaced target.text
    rw [hlookup, Option.filter_map]
    rfl
  rw [hcounted]
  -- an old value is released behind the new one, unless there is none or it is not counted
  cases (state.frames.lookup target.text).filter fun v => isHeap v.type with
  | none => exact mimics_around temps rfl
  | some v =>
    cases fresh with
    | true => cases value <;> exact mimics_around temps rfl
    | false =>
      refine (mimics_makeTemp value v.type).bind fun temp => mimics_around temps ?_
      have huse : temp.unplaced.use = temp.use.unplaced := temp.place.use_unplaced
      rw [map_append, Temp.setup_unplaced, huse]
      rfl

theorem mimics_resultName (name : Name) (location : Location) :
    Mimics (List.map Stmt.unplaced) (resultName name location)
      (resultName name.unplaced .nowhere) := by
  refine Mimics.get.bind fun state => .pure_of_eq ?_
  have hlookup : state.unplaced.frames.lookup name.unplaced.text = _ :=
    state.frames.lookup_unplaced name.text
  have hrelease : state.unplaced.frames.releaseAll (some name.unplaced.text) = _ :=
    state.frames.releaseAll_unplaced (some name.text)
  have hborrowed :
      ((state.frames.lookup name.text).map Local.unplaced).any
        (fun v => !v.owned && isHeap v.type) = (state.frames.lookup name.text).any fun v =>
        !v.owned && isHeap v.type := by
    rw [Option.any_map]
    rfl
  rw [hlookup, hrelease, hborrowed, map_append, map_append]
  split <;> rfl

theorem mimics_resultValue (value : Expr) (location : Location) :
    Mimics (List.map Stmt.unplaced) (resultValue value location)
      (resultValue value.unplaced .nowhere) := by
  refine (mimics_hoist value).bind fun moved => ?_
  obtain ⟨value, temps⟩ := moved
  refine Mimics.get.bind fun state => ?_
  dsimp only
  -- the return, when the value is ready
  have hreturn (setup : List Stmt) (found : Expr) : Mimics (List.map Stmt.unplaced)
      (do return temps.flatMap Temp.setup ++ setup ++ releaseTemps temps ++
        (← get).frames.releaseAll none ++ [.result found location])
      (do return (temps.map Temp.unplaced).flatMap Temp.setup ++ setup.map Stmt.unplaced ++
        releaseTemps (temps.map Temp.unplaced) ++ (← get).frames.releaseAll none ++
        [.result found.unplaced .nowhere]) := by
    refine Mimics.get.bind fun state => .pure_of_eq ?_
    have hrelease : state.unplaced.frames.releaseAll none = _ :=
      state.frames.releaseAll_unplaced none
    rw [hrelease, Temp.flatMap_setup_unplaced, releaseTemps_unplaced]
    simp [Stmt.unplaced]
  rw [Lowering.typeOf_unplaced]
  cases state.typeOf value with
  | none => exact hreturn [] value
  | some type =>
    refine (mimics_makeTemp value type).bind fun temp => ?_
    have huse : temp.unplaced.use = temp.use.unplaced := temp.place.use_unplaced
    rw [Temp.setup_unplaced, huse]
    exact hreturn temp.setup temp.use

theorem mimics_result (value : Expr) (location : Location) :
    Mimics (List.map Stmt.unplaced) (result value location) (result value.unplaced .nowhere) := by
  rcases value.name_or_ne with ⟨name, rfl⟩ | hother
  · rw [Expr.unplaced]
    exact mimics_resultName name location
  · rw [result_of_ne_name hother, result_of_ne_name (Expr.unplaced_ne_name hother)]
    exact mimics_resultValue value location

theorem mimics_inFrame {locals : List Local} {returned : Bool} {action other : Lower (List Stmt)}
    (h : Mimics (List.map Stmt.unplaced) action other) :
    Mimics (List.map Stmt.unplaced) (inFrame locals returned action)
      (inFrame (locals.map Local.unplaced) returned other) := by
  refine (mimics_modify ?_).bind fun _ => h.bind fun block => Mimics.get.bind fun state =>
    (mimics_modify ?_).bind fun _ => .pure_of_eq ?_
  · exact fun _ => rfl
  · exact fun state => congrArg (Lowering.mk state.toContext) map_tail.symm
  · have hrelease : state.unplaced.frames.releaseInnermost = _ :=
      state.frames.releaseInnermost_unplaced
    rw [hrelease, ← map_append]
    split <;> rfl

mutual

theorem mimics_statement (previous : Option Stmt) : ∀ stmt : Stmt,
    Mimics (List.map Stmt.unplaced) (statement previous stmt)
      (statement (previous.map Stmt.unplaced) stmt.unplaced)
  | .declaration type name location => by
    rw [Stmt.unplaced, statement, statement]
    refine (mimics_declareAll
      [{ name := name, type := type.text, location := location }]).bind fun _ => ?_
    exact .pure [Stmt.declaration type name location]
  | .assignment target value location => by
    have hfresh : (previous.map Stmt.unplaced).any (·.declares target.text) =
        previous.any (·.declares target.text) := by
      cases previous <;> simp
    rw [Stmt.unplaced, statement, statement]
    have h := mimics_assignment (previous.any (·.declares target.text)) target value location
    change Mimics _ _ (assignment ((previous.map Stmt.unplaced).any (·.declares target.text)) _ _ _)
    rw [hfresh]
    exact h
  | .conditional condition body location => by
    rw [Stmt.unplaced, statement, statement, Stmt.unplacedAll_eq_map, endsWithResult_unplaced,
      ← Stmt.unplacedAll_eq_map]
    refine (mimics_hoist condition).bind fun moved => ?_
    obtain ⟨condition, temps⟩ := moved
    have hplaces :
        (temps.map Temp.unplaced).map Temp.place = (temps.map Temp.place).map Local.unplaced := by
      rw [map_map, map_map]
      rfl
    dsimp only
    rw [hplaces]
    -- the temporaries of the condition are variables of the body around it
    refine (mimics_declareAll _).bind fun _ =>
      (mimics_inFrame (mimics_block none body)).bind fun lowered => ?_
    refine .pure_of_eq ?_
    rw [map_append, map_singleton, Temp.flatMap_setup_unplaced, Stmt.unplaced_conditional]
  | .result value location => by
    rw [Stmt.unplaced, statement, statement]
    exact mimics_result value location
  | .expression value location => by
    rw [Stmt.unplaced, statement, statement]
    exact mimics_expression value location
  | .function name parameters returnType body location => by
    rw [Stmt.unplaced]
    exact .pure [Stmt.function name parameters returnType body location]
  | .retain name location => by
    rw [Stmt.unplaced]
    exact .pure [Stmt.retain name location]
  | .release name location => by
    rw [Stmt.unplaced]
    exact .pure [Stmt.release name location]

theorem mimics_block (previous : Option Stmt) : ∀ stmts : List Stmt,
    Mimics (List.map Stmt.unplaced) (block previous stmts) (block (previous.map Stmt.unplaced)
      (Stmt.unplacedAll stmts))
  | [] => by
    rw [Stmt.unplacedAll, block, block]
    exact .pure []
  | stmt :: stmts => by
    rw [Stmt.unplacedAll, block, block]
    refine (mimics_statement previous stmt).bind fun lowered =>
      (mimics_block (some stmt) stmts).bind fun rest => ?_
    exact .pure_of_eq map_append.symm

end

/-! ### Functions and programs -/

mutual

theorem assignedNames_unplaced : ∀ stmt : Stmt, assignedNames stmt.unplaced = assignedNames stmt
  | .assignment .. => by simp [Stmt.unplaced, assignedNames, Name.unplaced]
  | .conditional condition body location => by
    rw [Stmt.unplaced, assignedNames, assignedNames, assignedNamesOfAll_unplacedAll body]
  | .declaration .. | .expression .. | .result .. | .function .. | .retain .. | .release .. => by
    simp [Stmt.unplaced, assignedNames]

theorem assignedNamesOfAll_unplacedAll : ∀ block : List Stmt,
    assignedNamesOfAll (Stmt.unplacedAll block) = assignedNamesOfAll block
  | [] => by rw [Stmt.unplacedAll]
  | stmt :: block => by
    rw [Stmt.unplacedAll, assignedNamesOfAll, assignedNamesOfAll, assignedNames_unplaced stmt,
      assignedNamesOfAll_unplacedAll block]

end

theorem mimics_function (definition : FunctionDef) :
    Mimics FunctionDef.unplaced (function definition) (function definition.unplaced) := by
  obtain ⟨name, parameters, returnType, body, location⟩ := definition
  have hassigned : assignedNamesOfAll (body.map Stmt.unplaced) = assignedNamesOfAll body := by
    rw [← Stmt.unplacedAll_eq_map, assignedNamesOfAll_unplacedAll]
  have hlocals : (parameters.map Parameter.unplaced).map (ofParameter (assignedNamesOfAll body)) =
      (parameters.map (ofParameter (assignedNamesOfAll body))).map Local.unplaced := by
    rw [map_map, map_map]
    rfl
  have hblock := mimics_block none body
  rw [Stmt.unplacedAll_eq_map] at hblock
  unfold function
  simp only [FunctionDef.unplaced, hassigned, hlocals, endsWithResult_unplaced, ← map_reverse]
  refine (mimics_inFrame hblock).bind fun lowered => .pure_of_eq ?_
  have hprologue (locals : List Local) :
      ((locals.map Local.unplaced).filter (·.owned)).map (fun v => Stmt.retain v.name v.location) =
        ((locals.filter (·.owned)).map fun v => Stmt.retain v.name v.location).map
          Stmt.unplaced := by
    rw [filter_map, map_map, map_map]
    rfl
  rw [hprologue, ← map_append]
  rfl

end Lower

theorem Context.ofProgram_unplaced (program : Program) :
    Context.ofProgram program.unplaced = Context.ofProgram program := by
  have hnames : Stmt.namesOfAll program.unplaced = Stmt.namesOfAll program := by
    rw [Program.unplaced, ← Stmt.unplacedAll_eq_map, Stmt.namesOfAll_unplacedAll]
  have htypes : ReturnTypes.ofProgram program.unplaced = ReturnTypes.ofProgram program := by
    have hfunctions : program.unplaced.filterMap Stmt.toFunctionDef? =
        (program.filterMap Stmt.toFunctionDef?).map FunctionDef.unplaced := by
      rw [Program.unplaced, filterMap_map, map_filterMap]
      exact filterMap_congr fun stmt _ => stmt.toFunctionDef?_unplaced
    have hreturns (function : FunctionDef) :
        function.unplaced.returnType.map Name.text = function.returnType.map Name.text := by
      rw [FunctionDef.unplaced, Option.map_map]
      rfl
    rw [ReturnTypes.ofProgram, ReturnTypes.ofProgram, hfunctions, foldl_map]
    simp only [hreturns]
    rfl
  rw [ofProgram, ofProgram, hnames, htypes]

theorem Context.lowerFunction_unplaced (context : Context) (function : FunctionDef) :
    context.lowerFunction function.unplaced =
      ((context.lowerFunction function).1.unplaced, (context.lowerFunction function).2) := by
  unfold lowerFunction
  have h : Lower.function function.unplaced { toContext := context } = _ :=
    Lower.mimics_function function { toContext := context }
  rw [h]
  rfl

theorem Context.lower_unplaced (context : Context) (program : Program) :
    context.lower program.unplaced =
      ((context.lower program).1.unplaced, (context.lower program).2) := by
  induction program generalizing context with
  | nil => rfl
  | cons stmt program ih =>
    change lower context (stmt.unplaced :: Program.unplaced program) = _
    rw [lower, lower, Stmt.toFunctionDef?_unplaced]
    cases stmt.toFunctionDef? with
    | none =>
      simp only [Option.map_none, ih]
      rfl
    | some =>
      simp only [Option.map_some, lowerFunction_unplaced, ih, FunctionDef.toStmt_unplaced]
      rfl

/-- **No place decides how a program is lowered.** -/
theorem lower_unplaced (program : Program) : lower program.unplaced = (lower program).unplaced := by
  rw [lower, lower, Context.ofProgram_unplaced, Context.lower_unplaced]

end Refcount

end FrontEnd
