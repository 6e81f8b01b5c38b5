import FrontEnd.Proofs.Typing.Complete

/-!
# Programs that keep the rules do not get stuck

A program that keeps the rules never comes to something without a meaning when it is run: every name
is declared, every value fits the place it gets to, and every call gets the arguments it needs
(`callSound_staged`). Nothing ends a run early but the bound on the depth of calls. This holds for
evaluation from left to right and for evaluation in two stages with any choice of eager arguments.

The proof follows a run along the rules for the same statements. The environment of the run has the
variables that the rules say, and values always fit the types of their variables (`Fitted`).
-/

namespace FrontEnd.Execution

open Machine List
open Direct (Stands StandAll)

variable {setting : Setting} {program : Program} {returns : Option Ty} {env current : Env Data}
  {functions : List FunctionDef} {values : List (Value Data)}

/-! ### Values that fit -/

/-- A value that may come from an expression which stands for something. -/
def FitsEntity (value : Value Data) (entity : Option Entity) : Prop :=
  ∀ type, entity = some (.value (.named type)) → Fits value type

/-- Variables with values that fit their types. -/
def Env.Fit (env : Env Data) : Prop :=
  ∀ slot ∈ env.flatten, Fits slot.value slot.type

/-- An environment of a run with the variables of one that the rules are about, whose values fit. -/
structure Fitted (env current : Env Data) : Prop where
  layout : current.layout = env.layout
  fit : current.Fit

namespace Fitted

variable {name : String}

section

variable (h : Fitted env current)
include h

/-- Names stand for the same in both. -/
theorem entity {globals : String → Option Entity} :
    entityIn globals current = entityIn globals env := by
  funext name
  have htype := Env.type_find_of_layout h.layout name
  unfold entityIn
  cases hcurrent : current.find name <;> cases henv : env.find name <;> simp_all

theorem declare (name type : String) (location : Location) :
    Fitted (env.declare { name, type, location }) (current.declare { name, type, location }) := by
  refine ⟨by rw [Env.layout_declare, Env.layout_declare, h.layout], fun slot hslot => ?_⟩
  rcases Env.mem_declare hslot with rfl | hslot
  · trivial
  · exact h.fit slot hslot

/-- A variable gets a value that fits. -/
theorem update {slot : Slot Data} {value : Value Data} (hfind : current.find name = some slot)
    (hfits : Fits value slot.type) (other : Value Data) :
    Fitted (env.update name other) (current.update name value) := by
  refine ⟨by rw [Env.layout_update, Env.layout_update, h.layout], fun changed hchanged => ?_⟩
  rw [Env.flatten_update] at hchanged
  rcases Env.mem_updateFrame hchanged with hold | ⟨first, hfirst, rfl⟩
  · exact h.fit changed hold
  · cases hfind.symm.trans hfirst
    exact hfits

theorem push : Fitted ([] :: env) ([] :: current) :=
  ⟨congrArg ([] :: ·) h.layout, h.fit⟩

theorem tail : Fitted env.tail current.tail := by
  refine ⟨?_, fun slot hslot => ?_⟩
  · rw [Env.layout_tail, Env.layout_tail, h.layout]
  · obtain ⟨frame, hframe, hslot⟩ := mem_flatten.mp hslot
    exact h.fit slot (mem_flatten.mpr ⟨frame, mem_of_mem_tail hframe, hslot⟩)

end

end Fitted

/-! ### Expressions -/

/-- What is known outside of bodies: functions give values of basic types, and every name that
stands for something has a value when the program runs. -/
structure Outside (machine : Machine Data Unit) (globals : String → Option Entity) : Prop where
  basic : ∀ (name : String) (signature : Signature), globals name = some (.value signature.toTy) →
    ∀ type ∈ signature.returns, ∃ basic, type = Ty.named basic
  known : ∀ name entity, globals name = some entity →
    ∃ value, machine.global? name = some value ∧ FitsEntity value (some entity)

/-- Functions that get arguments which fit do not get stuck, and give values which fit. -/
def CallSound (globals : String → Option Entity) (call : Machine.Caller Data Unit) : Prop :=
  ∀ (name : String) (signature : Signature) (values : List (Value Data)) (env : Env Data),
    globals name = some (.value signature.toTy) →
    Forall₂ (fun value type => FitsEntity value (some (.value type))) values
      signature.parameters →
    Holds (·.env = env) (call name values)
      (fun value state => state.env = env ∧ FitsEntity value (signature.returns.map .value))
      (· = .depth)

/-- Expressions that stand for something do not get stuck, and give values which fit. -/
def EvalSound (globals : String → Option Entity) (evaluate : Expr → Run Data Unit (Value Data)) :
    Prop :=
  ∀ ⦃env : Env Data⦄ ⦃expression : Expr⦄ ⦃entity : Option Entity⦄, env.Fit →
    Stands (entityIn globals env) expression entity →
    Holds (·.env = env) (evaluate expression)
      (fun value state => state.env = env ∧ FitsEntity value entity) (· = .depth)

section Expressions

variable {globals : String → Option Entity} {call : Machine.Caller Data Unit} {name : String}
  {entities : List Entity}

theorem holds_readName (houtside : Outside (plain setting program) globals) (hfit : env.Fit)
    {entity : Entity} (hentity : entityIn globals env name = some entity) :
    Holds (·.env = env) ((plain setting program).readName name)
      (fun value state => state.env = env ∧ FitsEntity value (some entity)) (· = .depth) := by
  intro state hstate
  rw [entityIn] at hentity
  rw [readName_plain, hstate]
  cases hfind : env.find name with
  | some slot =>
    rw [hfind] at hentity
    cases hentity
    refine ⟨hstate, fun type heq => ?_⟩
    cases heq
    exact hfit slot (mem_of_find?_eq_some hfind)
  | none =>
    rw [hfind] at hentity
    obtain ⟨value, hvalue, hfits⟩ := houtside.known name entity hentity
    simp only [hvalue]
    exact ⟨hstate, hfits⟩

theorem holds_finishAll {actions : List (Run Data Unit (Value Data))}
    (h : Forall₂ (fun action entity => Holds (·.env = env) action
      (fun value state => state.env = env ∧ FitsEntity value (some entity)) (· = .depth))
      actions entities) :
    Holds (·.env = env) (finishAll actions)
      (fun values state => state.env = env ∧
        Forall₂ (fun value entity => FitsEntity value (some entity)) values entities)
      (· = .depth) := by
  induction h with
  | nil => exact .pure fun state hstate => ⟨hstate, .nil⟩
  | cons hfirst _ ih =>
    rw [finishAll]
    refine hfirst.step fun value hvalue => ?_
    refine ih.step fun values hvalues => ?_
    exact .pure fun state hstate => ⟨hstate, .cons hvalue hvalues⟩

/-- Arguments that match the parameters of a function fit them. -/
theorem fits_of_argumentsMatch {values : List (Value Data)} {types : List Ty}
    (h : Forall₂ (fun value entity => FitsEntity value (some entity)) values entities)
    (hmatch : Infer.argumentsMatch entities types = true) :
    Forall₂ (fun value type => FitsEntity value (some (.value type))) values types := by
  induction h generalizing types with
  | nil =>
    cases types with
    | nil => exact .nil
    | cons => cases hmatch
  | cons hfirst _ ih =>
    cases types with
    | nil => cases hmatch
    | cons =>
      simp only [Infer.argumentsMatch, Bool.and_eq_true, Entity.isValueOf_iff] at hmatch
      exact .cons (hmatch.1 ▸ hfirst) (ih hmatch.2)

/-- An action that gives a value which fits, and leaves the environment alone. -/
abbrev Gives (env : Env Data) (entity : Option Entity)
    (action : Run Data Unit (Value Data)) : Prop :=
  Holds (·.env = env) action (fun value state => state.env = env ∧ FitsEntity value entity)
    (· = .depth)

theorem gives_advance {entity : Option Entity} {action : Run Data Unit (Value Data)} (eager : Bool)
    (h : Gives env entity action) : Holds (·.env = env) (advance eager action)
      (fun action state => state.env = env ∧ Gives env entity action) (· = .depth) := by
  unfold advance
  split
  · rw [map_eq_pure_bind]
    refine h.step fun value hvalue => ?_
    exact .pure fun state hstate => ⟨hstate, .pure fun state hstate => ⟨hstate, hvalue⟩⟩
  · exact .pure fun state hstate => ⟨hstate, h⟩

mutual

theorem holds_settle (houtside : Outside (plain setting program) globals)
    (hfit : env.Fit) (hcall : CallSound globals call)
    (eager : Expr → Bool) : ∀ {expression : Expr} {entity : Option Entity},
    Stands (entityIn globals env) expression entity →
    Holds (·.env = env) ((plain setting program).settle eager call expression)
      (fun action state => state.env = env ∧ Gives env entity action) (· = .depth)
  | .name name, entity, hstands => by
    obtain ⟨found, hfound, rfl⟩ := hstands
    rw [Machine.settle]
    exact .pure fun state hstate => ⟨hstate, holds_readName houtside hfit hfound⟩
  | .integer digits location, entity, hstands | .string text location, entity, hstands => by
    cases hstands
    rw [Machine.settle]
    refine .pure fun state hstate => ⟨hstate, fun state hstate => ⟨hstate, fun type htype => ?_⟩⟩
    cases htype
    rfl
  | .call function arguments location, entity, hstands => by
    obtain ⟨callee, signature, entities, hfunction, hsignature, hall, hmatch, rfl⟩ := hstands
    obtain ⟨name, rfl, hfind, hglobal⟩ := callee_of_stands houtside.basic hfunction hsignature
    rw [Machine.settle]
    refine (holds_settleAll houtside hfit hcall eager hall).step fun actions hactions => ?_
    refine .pure fun state hstate => ⟨hstate, ?_⟩
    refine (holds_finishAll hactions).step fun values hvalues state hstate => ?_
    rw [apply_of_find_none (hstate ▸ hfind)]
    exact hcall _ signature values env hglobal (fits_of_argumentsMatch hvalues hmatch) state hstate

theorem holds_settleAll (houtside : Outside (plain setting program) globals)
    (hfit : env.Fit) (hcall : CallSound globals call)
    (eager : Expr → Bool) : ∀ {arguments : List Expr} {entities : List Entity},
    StandAll (entityIn globals env) arguments entities →
    Holds (·.env = env) ((plain setting program).settleAll eager call arguments)
      (fun actions state => state.env = env ∧
        Forall₂ (fun action entity => Gives env (some entity) action) actions entities)
      (· = .depth)
  | [], entities, hall => by
    cases hall
    rw [settleAll]
    exact .pure fun state hstate => ⟨hstate, .nil⟩
  | argument :: arguments, entities, hall => by
    obtain ⟨first, rest, hfirst, hrest, rfl⟩ := hall
    rw [settleAll]
    refine (holds_settle houtside hfit hcall eager hfirst).step fun action haction => ?_
    refine (gives_advance _ haction).step fun action' haction' => ?_
    refine (holds_settleAll houtside hfit hcall eager hrest).step fun actions hactions => ?_
    exact .pure fun state hstate => ⟨hstate, .cons haction' hactions⟩

end

end Expressions

/-- Evaluation in two stages does not get stuck if calls do not. -/
theorem evalSound_staged {globals : String → Option Entity} {call : Machine.Caller Data Unit}
    (houtside : Outside (plain setting program) globals) (hcall : CallSound globals call)
    (eager : Expr → Bool) :
    EvalSound globals ((plain setting program).staged eager call) := by
  intro env expression entity hfit hstands
  exact (holds_settle houtside hfit hcall eager hstands).step fun action haction => haction

/-! ### Statements -/

/-- What a statement leaves behind: an environment as the rules say, or a value that fits what the
function returns. -/
def Leaves (returns : Option Ty) (after : Env Data) (result : Option (Value Data))
    (state : State Data Unit) : Prop :=
  match result with
  | none => Fitted after state.env
  | some value => ∃ expected, returns = some expected ∧ FitsEntity value (some (.value expected))

/-- A value that fits a truth value is one, if it is set. -/
theorem truth_of_fits {value : Value Data} (h : FitsEntity value (some (.value .bool))) :
    value = .unset ∨ ∃ holds, value = .truth holds := by
  have hfits : Fits value "Bool" := h "Bool" rfl
  cases value with
  | nothing => cases hfits
  | unset => exact .inl rfl
  | truth holds => exact .inr ⟨holds, rfl⟩
  | object data => cases data <;> simp [Fits, Data.type] at hfits
  | static => cases hfits

section Statements

variable {globals : String → Option Entity} {after : Env Data}
  {evaluate : Expr → Run Data Unit (Value Data)} {value : Value Data}

theorem holds_branch (h : FitsEntity value (some (.value .bool))) :
    Holds (·.env = env) ((plain setting program).branch value) (fun _ state => state.env = env)
      (· = .depth) := by
  intro state hstate
  rcases truth_of_fits h with rfl | ⟨holds, rfl⟩
  · exact hstate
  · exact hstate

/-- A statement runs in an environment that is known at its start. -/
theorem holds_of_env {α : Type} {action : Run Data Unit α} {Q : α → State Data Unit → Prop}
    {allowed : Halt → Prop}
    (h : ∀ current, Fitted env current → Holds (·.env = current) action Q allowed) :
    Holds (Fitted env ·.env) action Q allowed :=
  fun run hrun => h run.env hrun run rfl

theorem holds_inBlock {action : Run Data Unit (Option (Value Data))}
    (h : Holds (Fitted ([] :: env) ·.env) action (Leaves returns after) (· = .depth)) :
    Holds (Fitted env ·.env) (inBlock action) (Leaves returns after.tail) (· = .depth) := by
  unfold inBlock
  refine Holds.bind (Q := fun _ run => Fitted ([] :: env) run.env)
    (fun run hrun => hrun.push) fun _ => ?_
  refine h.bind fun result => ?_
  intro run hrun
  cases result with
  | none => exact hrun.tail
  | some => exact hrun

mutual

/-- **A statement that keeps the rules does not get stuck**, and leaves the variables that the rules
say. -/
theorem holds_exec (hevaluate : EvalSound globals evaluate) : ∀ {stmt : Stmt}
    {env after : Env Data},
    Allowed globals returns stmt env after →
    Holds (Fitted env ·.env) ((plain setting program).exec evaluate stmt)
      (Leaves returns after) (· = .depth)
  | .expression expression location, env, after, h => by
    obtain ⟨⟨entity, husable⟩, rfl⟩ := h
    refine holds_of_env fun current hfitted => ?_
    rw [exec]
    refine (hevaluate hfitted.fit (hfitted.entity ▸ husable.stands)).step fun value _ => ?_
    exact .pure fun run hrun => (hrun ▸ hfitted : Fitted _ run.env)
  | .declaration type name location, env, after, h => by
    obtain ⟨-, -, rfl⟩ := h
    rw [exec]
    exact fun run hrun => hrun.declare name type.text location
  | .assignment target value location, env, after, h => by
    obtain ⟨slot, hfind, husable, rfl⟩ := h
    refine holds_of_env fun current hfitted => ?_
    have htype := Env.type_find_of_layout hfitted.layout target.text
    rw [hfind] at htype
    obtain ⟨found, hfound, htype⟩ := Option.map_eq_some_iff.mp htype
    rw [exec]
    refine (hevaluate hfitted.fit (hfitted.entity ▸ husable.stands)).step fun value hvalue => ?_
    have hfits : Fits value found.type := hvalue found.type (by rw [htype])
    rintro run rfl
    simp only [bind, EStateM.bind, assign_plain hfound hfits]
    exact hfitted.update hfound hfits filled
  | .conditional condition body location, env, after, h => by
    rw [Allowed] at h
    obtain ⟨husable, inner, hbody, rfl⟩ := h
    refine holds_of_env fun current hfitted => ?_
    rw [exec]
    refine (hevaluate hfitted.fit (hfitted.entity ▸ husable.stands)).step fun value hvalue => ?_
    refine (holds_branch hvalue).bind fun taken => ?_
    cases taken with
    | true =>
      have hblock : Holds (Fitted env ·.env) _ _ _ := holds_inBlock (holds_execAll hevaluate hbody)
      exact Holds.weaken hblock (fun run hrun => (hrun ▸ hfitted : Fitted _ run.env)) fun _ _ => id
    | false =>
      -- the body has not been run, and it would have changed nothing but values
      refine .pure fun run hrun => (⟨?_, hrun ▸ hfitted.fit⟩ : Fitted _ run.env)
      rw [hrun, hfitted.layout, hbody.grows.layout_tail]
      rfl
  | .result value location, env, after, h => by
    obtain ⟨⟨expected, hreturns, husable⟩, rfl⟩ := h
    refine holds_of_env fun current hfitted => ?_
    rw [exec]
    refine (hevaluate hfitted.fit (hfitted.entity ▸ husable.stands)).step fun value hvalue => ?_
    exact .pure fun run _ => ⟨expected, hreturns, hvalue⟩
  | .function .., env, after, h => h.elim
  | .retain name location, env, after, h | .release name location, env, after, h => by
    cases (show after = env from h)
    rw [exec]
    exact fun run hrun => hrun

theorem holds_execAll (hevaluate : EvalSound globals evaluate) : ∀ {block : List Stmt}
    {env after : Env Data}, AllowedAll globals returns block env after →
    Holds (Fitted env ·.env) ((plain setting program).execAll evaluate block)
      (Leaves returns after) (· = .depth)
  | [], env, after, h => by
    cases (show after = env from h)
    rw [execAll]
    exact .pure fun run hrun => hrun
  | stmt :: block, env, after, h => by
    rw [AllowedAll] at h
    obtain ⟨middle, hstmt, hblock⟩ := h
    rw [execAll]
    refine (holds_exec hevaluate hstmt).bind fun result => ?_
    cases result with
    | none => exact holds_execAll hevaluate hblock
    | some => exact .pure fun run hrun => hrun

end

end Statements

/-! ### Functions -/

/-- A body that ends with a value to return does not run past its end. -/
theorem execAll_ne_none {ρ σ : Type} {machine : Machine ρ σ}
    {evaluate : Expr → Run ρ σ (Value ρ)} {block : List Stmt} (h : endsWithResult block = true)
    {state after : State ρ σ} : machine.execAll evaluate block state ≠ .ok none after := by
  induction block generalizing state with
  | nil => cases h
  | cons stmt block ih =>
    rw [execAll]
    simp only [bind, EStateM.bind]
    cases hstmt : machine.exec evaluate stmt state with
    | error => simp
    | ok result middle =>
      cases result with
      | some => simp [pure, EStateM.pure]
      | none =>
        cases block with
        | cons => exact ih (by simpa [endsWithResult] using h)
        | nil =>
          -- the last statement gives a value
          cases stmt with
          | result =>
            rw [exec] at hstmt
            simp only [bind, EStateM.bind] at hstmt
            split at hstmt <;> cases hstmt
          | expression | declaration | assignment | conditional | function | retain | release =>
            cases h

/-- What is known of the names of a file outside of bodies. -/
theorem outside_globals (setting : Setting) (functions : List FunctionDef) :
    Outside (plainFile setting functions) (globals functions) := by
  refine ⟨basic_of_globals, fun name entity hglobal => ?_⟩
  · rcases globals_cases hglobal with ⟨function, hfind, rfl⟩ | ⟨hbasic, rfl⟩ | ⟨htruth, rfl⟩
      | ⟨rfl, rfl⟩ | ⟨rfl, rfl⟩
    -- under the name of a function there is a value: its own, or that of a built-in name
    · have hdefined : (definition? (plainFile setting functions) name).isSome := by
        rw [definition?_eq, hfind]
        rfl
      obtain ⟨value, hvalue⟩ :
          ∃ value, global? (plainFile setting functions) name = some value := by
        unfold global?
        split
        · exact ⟨_, rfl⟩
        · split
          · exact ⟨_, rfl⟩
          · rw [if_pos (.inr hdefined)]
            exact ⟨_, rfl⟩
      exact ⟨value, hvalue, fun type htype => by cases htype⟩
    · refine ⟨.static name, ?_, fun type htype => by cases htype⟩
      simp only [Ty.basicNames, mem_cons, not_mem_nil, or_false] at hbasic
      rcases hbasic with rfl | rfl | rfl <;> simp [global?]
    · rcases htruth with rfl | rfl
      · refine ⟨.truth true, by simp [global?], fun type htype => ?_⟩
        cases htype
        rfl
      · refine ⟨.truth false, by simp [global?], fun type htype => ?_⟩
        cases htype
        rfl
    · exact ⟨.static "print", by simp [global?], fun type htype => by cases htype⟩
    · exact ⟨.static "input", by simp [global?], fun type htype => by cases htype⟩

theorem fitAll_of_fitsEntity {parameters : List Parameter}
    (h : Forall₂ (fun value type => FitsEntity value (some (.value type))) values
      (parameters.map fun parameter => .named parameter.type.text)) : FitAll values parameters := by
  rw [forall₂_map_right_iff] at h
  exact h.imp fun value parameter hfits => hfits _ rfl

/-- What a function starts with. -/
theorem fitted_startOf {function : FunctionDef} (hfits : FitAll values function.parameters) :
    Fitted (startOf function) (Env.ofArguments function.parameters values) := by
  refine ⟨?_, fun slot hslot => ?_⟩
  · have hlayout {values : List (Value Data)} (h : values.length = function.parameters.length) :
        (Env.ofArguments function.parameters values).layout =
          [(function.parameters.map fun parameter =>
          (parameter.name.text, parameter.type.text)).reverse] :=
      Env.map_ofArguments _ _ (fun _ _ => rfl) h
    rw [startOf, hlayout hfits.length_eq, hlayout (length_map _)]
  · rw [Env.ofArguments, flatten_singleton, mem_reverse] at hslot
    generalize function.parameters = parameters at hfits hslot
    induction hfits with
    | nil => cases hslot
    | cons hfirst _ ih =>
      rw [zipWith_cons_cons] at hslot
      rcases mem_cons.mp hslot with rfl | hslot
      · exact hfirst
      · exact ih hslot

theorem holds_conclude {returnType : Option Name} {result : Option (Value Data)}
    (hresult : result.isSome = returnType.isSome)
    (hfits : ∀ value ∈ result, ∀ type ∈ returnType, Fits value type.text) :
    Holds (·.env = env) ((plain setting program).conclude returnType result)
      (fun value state =>
        state.env = env ∧ FitsEntity value (returnType.map fun type => .value (.named type.text)))
      (· = .depth) := by
  cases returnType with
  | none =>
    cases result with
    | none => exact .pure fun state hstate => ⟨hstate, fun type htype => by cases htype⟩
    | some => cases hresult
  | some type =>
    cases result with
    | none => cases hresult
    | some value =>
      have hvalue := hfits value rfl type rfl
      rw [conclude, expect_plain hvalue, pure_bind]
      refine .pure fun state hstate => ⟨hstate, fun found hfound => ?_⟩
      cases hfound
      exact hvalue

section Functions

/-- **A function that keeps the rules does not get stuck** if it gets arguments that fit, and gives
a value that fits. -/
theorem holds_invoke {evaluate : Expr → Run Data Unit (Value Data)}
    (hevaluate : EvalSound (globals functions) evaluate) {function : FunctionDef}
    (hallowed : AllowedFunction functions function) (hfits : FitAll values function.parameters) :
    Holds (·.env = env) ((plainFile setting functions).invoke evaluate function values)
      (fun value state =>
        state.env = env ∧ FitsEntity value (function.signature.returns.map .value))
      (· = .depth) := by
  obtain ⟨after, hbody⟩ := hallowed.body
  -- the body ends with a result just where the function declares one
  have hrun : Holds (Fitted (startOf function) ·.env) ((plainFile setting functions).execAll
      evaluate function.body) (fun result _ => result.isSome = function.returnType.isSome ∧
        ∀ value ∈ result, ∀ type ∈ function.returnType, Fits value type.text) (· = .depth) := by
    intro state hstate
    have hblock : Holds _ ((plainFile setting functions).execAll evaluate function.body) _ _ :=
      holds_execAll hevaluate hbody
    have hleaves := hblock state hstate
    cases hresult : (plainFile setting functions).execAll evaluate function.body state with
    | error => rw [hresult] at hleaves; exact hleaves
    | ok result =>
      rw [hresult] at hleaves
      cases result with
      | none =>
        -- without a result: a body that has to return does not run to its end
        have hreturns : function.returnType.isSome = false := by
          cases hcase : function.returnType.isSome with
          | false => rfl
          | true => exact absurd hresult (execAll_ne_none (hallowed.ends hcase))
        exact ⟨hreturns.symm, fun value hvalue => by cases hvalue⟩
      | some =>
        obtain ⟨expected, hexpected, hvalue⟩ := hleaves
        obtain ⟨type, htype, rfl⟩ := Option.map_eq_some_iff.mp hexpected
        refine ⟨by rw [htype]; rfl, fun other hother found hfound => ?_⟩
        cases hother
        rw [htype] at hfound
        cases hfound
        exact hvalue _ rfl
  rw [invoke, expectAll_plain hfits, pure_bind]
  refine Holds.get_bind fun before hbefore => ?_
  refine (Holds.modifyEnv fun state _ => fitted_startOf hfits :
    Holds _ _ (fun _ state => Fitted (startOf function) state.env) _).bind fun _ => ?_
  refine hrun.bind fun result => ?_
  refine (Holds.modifyEnv fun state hstate => ⟨hbefore, hstate⟩ : Holds _ _ (fun _ state =>
    state.env = env ∧ _) _).step fun _ hresult => ?_
  refine (holds_conclude hresult.1 hresult.2).step fun value hvalue => ?_
  intro state hstate
  refine ⟨hstate, ?_⟩
  simpa only [FunctionDef.signature, Option.map_map, Function.comp_def] using hvalue

theorem ne_builtin_of_wellFormed {function : FunctionDef} (h : function.WellFormed) :
    function.name ≠ "print" ∧ function.name ≠ "input" := by
  constructor
  · rintro heq
    have := h.free
    rw [heq] at this
    cases this
  · rintro heq
    have := h.free
    rw [heq] at this
    cases this

theorem holds_print {value : Value Data} (h : FitsEntity value (some (.value .string))) :
    Holds (·.env = env) ((plain setting program).print value)
      (fun value state => state.env = env ∧ FitsEntity value none) (· = .depth) := by
  have hfits : Fits value "String" := h "String" rfl
  rintro state rfl
  cases value with
  | nothing => cases hfits
  | unset => exact ⟨rfl, fun type htype => by cases htype⟩
  | truth => simp [Fits] at hfits
  | object data =>
    cases data with
    | integer => simp [Fits, Data.type] at hfits
    | text => exact ⟨rfl, fun type htype => by cases htype⟩
  | static => cases hfits

theorem holds_input : Holds (·.env = env) (plain setting program).input
      (fun value state => state.env = env ∧ FitsEntity value (some (.value .string)))
      (· = .depth) := by
  rintro state rfl
  refine ⟨rfl, fun type htype => ?_⟩
  cases htype
  rfl

/-- Calls are fine if the calls of the functions of the program are. -/
theorem callSound_of_functions {strategy : Machine.Strategy Data Unit} {depth : Nat}
    (h : ∀ function ∈ functions, ∀ values env, FitAll values function.parameters →
      Holds (·.env = env)
        (Machine.call (plainFile setting functions) strategy depth function.name values)
        (fun value state =>
          state.env = env ∧ FitsEntity value (function.signature.returns.map .value))
        (· = .depth)) :
    CallSound (globals functions) (Machine.call (plainFile setting functions) strategy depth) := by
  intro name signature values env hglobal hfits
  rcases globals_cases hglobal with
    ⟨function, hfind, heq⟩ | ⟨-, heq⟩ | ⟨-, heq⟩ | ⟨rfl, heq⟩ | ⟨rfl, heq⟩
  · have hsignature : signature = function.signature := by
      cases signature
      cases heq
      rfl
    subst hsignature
    have hname : function.name = name := by simpa using find?_some hfind
    rw [← hname]
    exact h function (mem_of_find?_eq_some hfind) values env (fitAll_of_fitsEntity hfits)
  · cases heq
  · cases signature
    cases heq
  · cases signature
    cases heq
    rcases hfits with _ | ⟨hvalue, ⟨⟩⟩
    rw [call_builtin rfl]
    exact holds_print hvalue
  · cases signature
    cases heq
    cases hfits
    rw [call_builtin rfl]
    exact holds_input

/-- Calls are fine with values that fit. -/
theorem CallSound.function {call : Machine.Caller Data Unit}
    (h : CallSound (globals functions) call) (hnodup : (functions.map (·.name)).Nodup)
    {function : FunctionDef} (hmem : function ∈ functions)
    (hfits : FitAll values function.parameters) (env : Env Data) :
    Holds (·.env = env) (call function.name values) (fun value state => state.env = env ∧
        FitsEntity value (function.signature.returns.map .value)) (· = .depth) := by
  refine h function.name function.signature values env ?_ ?_
  · rw [globals_eq, Direct.find_file_of_mem hnodup hmem]
  · refine forall₂_map_right_iff.mpr (hfits.imp fun value parameter hvalue type htype => ?_)
    cases htype
    exact hvalue

/-- **Calls of programs that keep the rules do not get stuck**, whichever arguments are eager. -/
theorem callSound_staged (setting : Setting) (h : AllowedFile functions) (eager : Expr → Bool)
    (depth : Nat) :
    CallSound (globals functions) (Machine.call (plainFile setting functions)
        ((plainFile setting functions).staged eager) depth) := by
  induction depth with
  | zero =>
    refine callSound_of_functions fun function hmem values env hfits => ?_
    obtain ⟨hprint, hinput⟩ := ne_builtin_of_wellFormed (h.wellFormed function hmem)
    rw [call_zero (builtin?_eq_none hprint hinput)
      (by rw [definition?_eq, Direct.find_file_of_mem h.nodup hmem])]
    exact .throw rfl
  | succ depth ih =>
    refine callSound_of_functions fun function hmem values env hfits => ?_
    obtain ⟨hprint, hinput⟩ := ne_builtin_of_wellFormed (h.wellFormed function hmem)
    rw [call_succ (builtin?_eq_none hprint hinput)
      (by rw [definition?_eq, Direct.find_file_of_mem h.nodup hmem])]
    exact holds_invoke (evalSound_staged (outside_globals setting functions) ih eager)
      (h.each function hmem) hfits

end Functions

end FrontEnd.Execution
