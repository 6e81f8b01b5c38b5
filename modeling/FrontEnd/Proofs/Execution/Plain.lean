import FrontEnd.Proofs.Execution.Staged
import FrontEnd.Refcount.TempNames
import Mathlib.Data.List.Forall2

/-!
# Runs without counting

What the actions of a run come to where objects are nothing but what they hold, and how two such
runs are compared. Two runs stand side by side (`Beside`) if the world has seen the same in both and
their environments are related in some way. Statements do the same if their expressions do
(`matches_execAll`), and expressions look at the variables they name and change none
(`agrees_staged`).
-/

namespace FrontEnd.Execution

open Machine
open Relates (chain get_bind step weaken)

/-! ### Values that fit -/

/-- A value that may stand in a place of a type. -/
def Fits : Value Data → String → Prop
  | .unset, _ => True
  | .truth _, type => type = "Bool"
  | .object data, type => data.type = type
  | .nothing, _ | .static _, _ => False

/-- The machine without counting. -/
abbrev plain (setting : Setting) (program : Program) : Machine Data Unit :=
  ⟨.plain, setting, program⟩

/-- The machine without counting for the functions of a file. -/
abbrev plainFile (setting : Setting) (functions : List FunctionDef) : Machine Data Unit :=
  plain setting (functions.map FunctionDef.toStmt)

section Plain

variable {setting : Setting} {program : Program} {value : Value Data} {type : String}

@[simp] theorem look_plain (data : Data) : (plain setting program).look data = pure data := rfl

theorem readName_plain (name : String) (state : State Data Unit) :
    (plain setting program).readName name state =
      match state.env.find name with
      | some slot => .ok slot.value state
      | none =>
        match (plain setting program).global? name with
        | some value => .ok value state
        | none => .error .stuck state := by
  simp only [readName, bind_get]
  cases state.env.find name with
  | some slot => cases hvalue : slot.value <;> simp only [hvalue] <;> rfl
  | none => cases (plain setting program).global? name <;> rfl

/-- What a name gives depends on the innermost variable of the name alone. -/
theorem readName_plain_cases (setting : Setting) (program : Program) (env : Env Data)
    (name : String) :
    (∃ value, ∀ state : State Data Unit, state.env.find name = env.find name →
      (plain setting program).readName name state = .ok value state) ∨
    ∀ state : State Data Unit, state.env.find name = env.find name →
      (plain setting program).readName name state = .error .stuck state := by
  cases hfind : env.find name with
  | some slot =>
    exact .inl ⟨slot.value, fun state hstate => by rw [readName_plain, hstate]⟩
  | none =>
    cases hglobal : (plain setting program).global? name with
    | some value =>
      exact .inl ⟨value, fun state hstate => by rw [readName_plain, hstate, hglobal]⟩
    | none => exact .inr fun state hstate => by rw [readName_plain, hstate, hglobal]

theorem expect_plain (h : Fits value type) :
    (plain setting program).expect value type = pure () := by
  cases value with
  | nothing => cases h
  | unset => rfl
  | truth => simp only [expect, show type = "Bool" from h, if_true]
  | object data =>
    simp only [expect, look_plain, pure_bind, show data.type = type from h, if_true]
  | static => cases h

theorem expect_plain_eq_throw (h : ¬Fits value type) :
    (plain setting program).expect value type = throw .stuck := by
  cases value with
  | nothing => rfl
  | unset => exact absurd trivial h
  | truth => exact if_neg h
  | object =>
    rw [expect, look_plain, pure_bind]
    exact if_neg h
  | static => rfl

theorem assign_plain {name : String} {slot : Slot Data} {state : State Data Unit}
    (hslot : state.env.find name = some slot) (hfits : Fits value slot.type) :
    (plain setting program).assign name value state =
      .ok () { state with env := state.env.update name value } := by
  simp only [assign, bind_get, hslot, expect_plain hfits, pure_bind]
  rfl

/-- To check a value changes nothing. -/
theorem holds_expect_plain (value : Value Data) (type : String) (state : State Data Unit) :
    Holds (· = state) ((plain setting program).expect value type) (fun _ after => after = state)
      (· = .stuck) := by
  by_cases h : Fits value type
  · rw [expect_plain h]
    exact .pure fun _ => id
  · rw [expect_plain_eq_throw h]
    exact .throw rfl

end Plain

/-! ### Two runs side by side -/

/-- Two states in which the world has seen the same, with environments that are related. -/
def Beside (R : Env Data → Env Data → Prop) (state state' : State Data Unit) : Prop :=
  R state.env state'.env ∧ state'.world = state.world

/-- The second action does what the first one does and gives the same value. It takes environments
that are related in one way to environments that are related in another way. -/
abbrev Matches {α : Type} (excused : Halt → Prop) (R : Env Data → Env Data → Prop)
    (action other : Run Data Unit α) (R' : Env Data → Env Data → Prop) : Prop :=
  Relates excused (Beside R) action other fun value value' state state' =>
    value' = value ∧ Beside R' state state'

/-- Two environments that are given. -/
abbrev Fixed (env env' : Env Data) : Env Data → Env Data → Prop :=
  fun found found' => found = env ∧ found' = env'

/-- The second action does what the first one does, and both leave their environments alone. -/
abbrev Agrees {α : Type} (excused : Halt → Prop) (env env' : Env Data)
    (action other : Run Data Unit α) : Prop :=
  Matches excused (Fixed env env') action other (Fixed env env')

section TwoRuns

variable {α : Type} {excused : Halt → Prop} {R R' : Env Data → Env Data → Prop}
  {env env' : Env Data} {setting : Setting} {program program' : Program} {name : String}
  {inside inside' : Env Data → Env Data → Prop}

/-- Actions that leave environments alone keep every relation between them. -/
theorem matches_of_agrees {action other : Run Data Unit α}
    (h : ∀ env env', R env env' → Agrees excused env env' action other) :
    Matches excused R action other R := by
  intro state state' hstate
  have hagrees := h state.env state'.env hstate.1 state state' ⟨⟨rfl, rfl⟩, hstate.2⟩
  cases haction : action state with
  | error => rw [haction] at hagrees; exact hagrees
  | ok =>
    rw [haction] at hagrees
    obtain ⟨value', after', hother, hvalue, ⟨henv, henv'⟩, hworld⟩ := hagrees
    exact ⟨value', after', hother, hvalue, by rw [henv, henv']; exact hstate.1, hworld⟩

theorem matches_pure {value : α} (h : ∀ env env', R env env' → R' env env') :
    Matches excused R (pure value) (pure value) R' :=
  .pure fun _ _ hstate => ⟨rfl, h _ _ hstate.1, hstate.2⟩

theorem matches_done {value : α} : Matches excused R (pure value) (pure value) R :=
  matches_pure fun _ _ => id

theorem matches_throw {halt : Halt} : Matches excused R
    (throw halt : Run Data Unit α) (throw halt) R' :=
  .throw fun _ _ hstate => .inr hstate.2

theorem matches_modifyEnv {change change' : Env Data → Env Data}
    (h : ∀ env env', R env env' → R' (change env) (change' env')) :
    Matches excused R (modifyEnv change) (modifyEnv change') R' :=
  fun _ _ hstate => ⟨_, _, rfl, rfl, h _ _ hstate.1, hstate.2⟩

/-- Which body is run depends on the value and on the outside world alone. -/
theorem matches_branch (value : Value Data) :
    Matches excused R ((plain setting program).branch value) ((plain setting program').branch
      value) R := by
  rintro state state' ⟨henv, hworld⟩
  cases value with
  | nothing => exact .inr ⟨_, rfl, by simp [hworld]⟩
  | unset | truth holds => exact ⟨_, _, rfl, by rw [hworld], henv, by simp [hworld]⟩
  | object data | static name => exact .inr ⟨_, rfl, by simp [hworld]⟩

theorem matches_expect (value : Value Data) (type : String) :
    Matches excused R ((plain setting program).expect value type) ((plain setting program').expect
      value type) R := by
  by_cases h : Fits value type
  · rw [expect_plain h, expect_plain h]
    exact matches_done
  · rw [expect_plain_eq_throw h, expect_plain_eq_throw h]
    exact matches_throw

/-- A variable that looks the same in both environments gets a value. -/
theorem matches_assign {value : Value Data}
    (hfind : ∀ env env', R env env' → Env.find env' name = Env.find env name)
    (h : ∀ env env', R env env' → R' (Env.update name value env) (Env.update name value env')) :
    Matches excused R ((plain setting program).assign name value) ((plain setting program').assign
      name value) R' := by
  refine get_bind fun state state' hstate => ?_
  have hbeside : ∀ found found', found = state ∧ found' = state' → Beside R found found' := by
    rintro _ _ ⟨rfl, rfl⟩
    exact hstate
  refine weaken ?_ hbeside fun _ _ _ _ => id
  rw [hfind _ _ hstate.1]
  cases state.env.find name with
  | none => exact matches_throw
  | some slot => exact step (matches_expect value slot.type) fun _ => matches_modifyEnv h

theorem matches_inBlock {action other : Run Data Unit (Option (Value Data))}
    (h : Matches excused inside action other inside')
    (hpush : ∀ env env', R env env' → inside ([] :: env) ([] :: env'))
    (htail : ∀ env env', inside' env env' → R' env.tail env'.tail) :
    Matches excused R (inBlock action) (inBlock other) R' := by
  unfold inBlock
  refine step (matches_modifyEnv hpush) fun _ => ?_
  refine step h fun result => ?_
  refine step (matches_modifyEnv htail) fun _ => ?_
  exact matches_done

/-- Two conditions that do the same, with bodies that do the same. -/
theorem matches_conditional {evaluate evaluate' : Expr → Run Data Unit (Value Data)}
    {condition : Expr} {body body' : List Stmt} {location : Location}
    (hcondition : Matches excused R (evaluate condition) (evaluate' condition) R)
    (hbody : Matches excused inside ((plain setting program).execAll evaluate body)
      ((plain setting program').execAll evaluate' body') inside')
    (hpush : ∀ env env', R env env' → inside ([] :: env) ([] :: env'))
    (htail : ∀ env env', inside' env env' → R env.tail env'.tail) :
    Matches excused R ((plain setting program).exec evaluate (.conditional condition body location))
      ((plain setting program').exec evaluate' (.conditional condition body' location)) R := by
  rw [exec, exec]
  refine step hcondition fun value => ?_
  refine step (matches_branch value) fun taken => ?_
  cases taken with
  | true => exact matches_inBlock hbody hpush htail
  | false => exact matches_done

/-! ### Expressions side by side -/

theorem agrees_readName
    (hglobal : (plain setting program').global? name = (plain setting program).global? name)
    (hfind : Env.find env' name = Env.find env name) :
    Agrees excused env env' ((plain setting program).readName name)
      ((plain setting program').readName name) := by
  rintro state state' ⟨⟨rfl, rfl⟩, hworld⟩
  rw [readName_plain, readName_plain, hfind, hglobal]
  cases state.env.find name with
  | some => exact ⟨_, _, rfl, rfl, ⟨rfl, rfl⟩, hworld⟩
  | none =>
    cases (plain setting program).global? name with
    | some => exact ⟨_, _, rfl, rfl, ⟨rfl, rfl⟩, hworld⟩
    | none => exact .inr ⟨_, rfl, hworld⟩

theorem agrees_create (data : Data) : Agrees excused env env' ((plain setting program).create data)
      ((plain setting program').create data) :=
  fun _ _ hstate => ⟨_, _, rfl, rfl, hstate⟩

theorem agrees_finishAll {actions others : List (Run Data Unit (Value Data))}
    (h : List.Forall₂ (Agrees excused env env') actions others) :
    Agrees excused env env' (finishAll actions) (finishAll others) := by
  induction h with
  | nil => exact matches_done
  | cons hfirst _ ih =>
    rw [finishAll, finishAll]
    refine step hfirst fun value => ?_
    refine step ih fun values => ?_
    exact matches_done

/-- Two ways to call functions that do the same, wherever they are called. -/
def CallersAgree (excused : Halt → Prop) (call call' : Machine.Caller Data Unit) : Prop :=
  ∀ name values env env', Agrees excused env env' (call name values) (call' name values)

variable {call call' : Machine.Caller Data Unit}

theorem agrees_advance (eager : Bool) {action other : Run Data Unit (Value Data)}
    (h : Agrees excused env env' action other) :
    Relates excused (Beside (Fixed env env')) (advance eager action) (advance eager other)
      fun action other state state' =>
      Agrees excused env env' action other ∧ Beside (Fixed env env') state state' := by
  unfold advance
  split
  · rw [map_eq_pure_bind, map_eq_pure_bind]
    exact step h fun value => .pure fun _ _ hstate => ⟨matches_done, hstate⟩
  · exact .pure fun _ _ hstate => ⟨h, hstate⟩

/-- What is called is the same function, if the same names are hidden. -/
theorem agrees_apply (hcall : CallersAgree excused call call') {function : Expr}
    (hfind : ∀ name ∈ function.names, Env.find env' name = Env.find env name)
    (values : List (Value Data)) :
    Agrees excused env env' (apply call function values) (apply call' function values) := by
  cases function with
  | name function =>
    rw [apply, apply]
    refine get_bind fun state state' hstate => ?_
    have hbeside : ∀ found found', found = state ∧ found' = state' →
        Beside (Fixed env env') found found' := by
      rintro _ _ ⟨rfl, rfl⟩
      exact hstate
    refine weaken ?_ hbeside fun _ _ _ _ => id
    obtain ⟨rfl, rfl⟩ := hstate.1
    rw [hfind _ (by simp [Expr.names])]
    cases state.env.find function.text with
    | some => exact matches_throw
    | none => exact hcall _ values _ _
  | integer | string | call => exact matches_throw

mutual

theorem agrees_settle
    (hglobal : ∀ name, (plain setting program').global? name = (plain setting program).global? name)
    (hcall : CallersAgree excused call call') (eager : Expr → Bool) :
    ∀ {expression : Expr}, (∀ name ∈ expression.names, Env.find env' name = Env.find env name) →
      Relates excused (Beside (Fixed env env'))
        ((plain setting program).settle eager call expression)
        ((plain setting program').settle eager call' expression)
        fun action other state state' =>
          Agrees excused env env' action other ∧ Beside (Fixed env env') state state'
  | .name name, hfind => by
    rw [settle, settle]
    refine .pure fun _ _ hstate => ⟨agrees_readName (hglobal _) (hfind _ ?_), hstate⟩
    simp [Expr.names]
  | .integer .., hfind | .string .., hfind => by
    rw [settle, settle]
    exact .pure fun _ _ hstate => ⟨agrees_create _, hstate⟩
  | .call function arguments location, hfind => by
    rw [settle, settle]
    have harguments : ∀ name ∈ Expr.namesOfAll arguments, Env.find env' name = Env.find env name :=
      fun name hname => hfind name (by simp [Expr.names, hname])
    -- arguments are settled first, and what is left of them is done behind
    refine chain (agrees_settleAll hglobal hcall eager harguments) fun actions others hactions => ?_
    refine .pure fun _ _ hstate => ⟨?_, hstate⟩
    exact step (agrees_finishAll hactions) fun values =>
      agrees_apply hcall (fun name hname => hfind name (by simp [Expr.names, hname])) values

theorem agrees_settleAll
    (hglobal : ∀ name, (plain setting program').global? name = (plain setting program).global? name)
    (hcall : CallersAgree excused call call') (eager : Expr → Bool) : ∀ {arguments : List Expr},
    (∀ name ∈ Expr.namesOfAll arguments, Env.find env' name = Env.find env name) →
    Relates excused (Beside (Fixed env env')) ((plain setting program).settleAll eager
      call arguments) ((plain setting program').settleAll eager call' arguments)
      fun actions others state state' => List.Forall₂ (Agrees excused env env') actions others ∧
        Beside (Fixed env env') state state'
  | [], hfind => by
    rw [settleAll, settleAll]
    exact .pure fun _ _ hstate => ⟨.nil, hstate⟩
  | argument :: arguments, hfind => by
    rw [settleAll, settleAll]
    have hfirst : ∀ name ∈ argument.names, Env.find env' name = Env.find env name :=
      fun name hname => hfind name (by simp [Expr.namesOfAll, hname])
    have hrest : ∀ name ∈ Expr.namesOfAll arguments, Env.find env' name = Env.find env name :=
      fun name hname => hfind name (by simp [Expr.namesOfAll, hname])
    -- each argument is settled, then maybe evaluated at once, before the next one is
    refine chain (agrees_settle hglobal hcall eager hfirst) fun action other haction => ?_
    refine chain (agrees_advance _ haction) fun action other haction => ?_
    refine chain (agrees_settleAll hglobal hcall eager hrest) fun actions others hactions => ?_
    exact .pure fun _ _ hstate => ⟨.cons haction hactions, hstate⟩

end

/-- Evaluation depends on the variables that an expression names, and changes none. -/
theorem agrees_staged
    (hglobal : ∀ name, (plain setting program').global? name = (plain setting program).global? name)
    (hcall : CallersAgree excused call call') (eager : Expr → Bool) {expression : Expr}
    (hfind : ∀ name ∈ expression.names, Env.find env' name = Env.find env name) :
    Agrees excused env env' ((plain setting program).staged eager call expression)
      ((plain setting program').staged eager call' expression) :=
  chain (agrees_settle hglobal hcall eager hfind) fun _ _ haction => haction

end TwoRuns

end FrontEnd.Execution

namespace FrontEnd

mutual

/-- The expressions that a statement evaluates. -/
def Stmt.expressions : Stmt → List Expr
  | .expression value _ => [value]
  | .assignment _ value _ => [value]
  | .conditional condition body _ => condition :: Stmt.expressionsOfAll body
  | .result value _ => [value]
  | .declaration .. | .function .. | .retain .. | .release .. => []

/-- The expressions that a block evaluates. -/
def Stmt.expressionsOfAll : List Stmt → List Expr
  | [] => []
  | stmt :: block => stmt.expressions ++ Stmt.expressionsOfAll block

end

namespace Execution

open Machine
open Relates (chain get_bind step)

/-! ### Statements side by side -/

/-- Two ways to evaluate expressions that do the same on the given ones. -/
def EvaluatorsAgree (excused : Halt → Prop) (evaluate evaluate' : Expr → Run Data Unit (Value Data))
    (expressions : List Expr) : Prop :=
  ∀ expression ∈ expressions, ∀ env,
    Agrees excused env env (evaluate expression) (evaluate' expression)

section Statements

variable {excused : Halt → Prop} {setting : Setting} {program program' : Program}
  {evaluate evaluate' : Expr → Run Data Unit (Value Data)}

theorem EvaluatorsAgree.matches {expressions : List Expr}
    (h : EvaluatorsAgree excused evaluate evaluate' expressions) {expression : Expr}
    (hmem : expression ∈ expressions) :
    Matches excused Eq (evaluate expression) (evaluate' expression) Eq :=
  matches_of_agrees fun env _ henv => henv ▸ h expression hmem env

mutual

theorem matches_exec :
    ∀ (stmt : Stmt), EvaluatorsAgree excused evaluate evaluate' stmt.expressions →
    Matches excused Eq ((plain setting program).exec evaluate stmt) ((plain setting program').exec
      evaluate' stmt) Eq
  | .expression expression location, h => by
    rw [exec, exec]
    exact step (h.matches (by simp [Stmt.expressions])) fun _ => matches_done
  | .declaration type name location, h => by
    rw [exec, exec]
    exact step (matches_modifyEnv fun _ _ henv => henv ▸ rfl) fun _ => matches_done
  | .assignment target value location, h => by
    rw [exec, exec]
    refine step (h.matches (by simp [Stmt.expressions])) fun value => ?_
    have hassign : Matches excused Eq ((plain setting program).assign target.text value)
        ((plain setting program').assign target.text value) Eq :=
      matches_assign (fun _ _ henv => henv ▸ rfl) fun _ _ henv => henv ▸ rfl
    exact step hassign fun _ => matches_done
  | .conditional condition body location, h => by
    have hbody : EvaluatorsAgree excused evaluate evaluate' (Stmt.expressionsOfAll body) :=
      fun expression hmem => h expression (by simp [Stmt.expressions, hmem])
    exact matches_conditional (h.matches (by simp [Stmt.expressions])) (matches_execAll body hbody)
      (fun _ _ henv => henv ▸ rfl) fun _ _ henv => henv ▸ rfl
  | .result value location, h => by
    rw [exec, exec]
    exact step (h.matches (by simp [Stmt.expressions])) fun _ => matches_done
  | .function .., h => by
    rw [exec, exec]
    exact matches_throw
  | .retain name location, h | .release name location, h => by
    rw [exec, exec]
    exact matches_done

/-- A block does the same with either way to evaluate. -/
theorem matches_execAll : ∀ (block : List Stmt),
    EvaluatorsAgree excused evaluate evaluate' (Stmt.expressionsOfAll block) →
    Matches excused Eq ((plain setting program).execAll evaluate block)
      ((plain setting program').execAll evaluate' block) Eq
  | [], h => by
    rw [execAll, execAll]
    exact matches_done
  | stmt :: block, h => by
    rw [execAll, execAll]
    have hstmt : EvaluatorsAgree excused evaluate evaluate' stmt.expressions :=
      fun expression hmem => h expression (by simp [Stmt.expressionsOfAll, hmem])
    have hblock : EvaluatorsAgree excused evaluate evaluate' (Stmt.expressionsOfAll block) :=
      fun expression hmem => h expression (by simp [Stmt.expressionsOfAll, hmem])
    refine step (matches_exec stmt hstmt) fun result => ?_
    cases result with
    | some => exact matches_done
    | none => exact matches_execAll block hblock

end

end Statements

/-! ### Calls side by side -/

section Calls

variable {excused : Halt → Prop} {setting : Setting} {program program' : Program}
  {evaluate evaluate' : Expr → Run Data Unit (Value Data)} {env env' : Env Data}
  {R : Env Data → Env Data → Prop} {values : List (Value Data)} {name : String}

theorem matches_expectAll (values : List (Value Data)) (parameters : List Parameter) :
    Matches excused R ((plain setting program).expectAll values parameters)
      ((plain setting program').expectAll values parameters) R := by
  induction values generalizing parameters with
  | nil =>
    cases parameters with
    | nil => exact matches_done
    | cons => exact matches_throw
  | cons value values ih =>
    cases parameters with
    | nil => exact matches_throw
    | cons parameter parameters =>
      rw [expectAll, expectAll]
      exact step (matches_expect value _) fun _ => ih parameters

theorem matches_conclude (returnType : Option Name) (result : Option (Value Data)) :
    Matches excused R ((plain setting program).conclude returnType result)
      ((plain setting program').conclude returnType result) R := by
  cases returnType with
  | none =>
    cases result with
    | none => exact matches_done
    | some => exact matches_throw
  | some =>
    cases result with
    | none => exact matches_throw
    | some value =>
      rw [conclude, conclude]
      exact step (matches_expect value _) fun _ => matches_done

/-- Only as many values as there are parameters are let through. -/
theorem holds_expectAll_length (values : List (Value Data)) (parameters : List Parameter) :
    Holds (fun _ => True) ((plain setting program).expectAll values parameters)
      (fun _ _ => values.length = parameters.length) fun _ => True := by
  induction values generalizing parameters with
  | nil =>
    cases parameters with
    | nil => exact .pure fun _ _ => rfl
    | cons => exact .throw trivial
  | cons value values ih =>
    cases parameters with
    | nil => exact .throw trivial
    | cons parameter parameters =>
      rw [expectAll]
      refine Holds.bind (Q := fun _ _ => True) (fun state _ => ?_) fun _ => ?_
      · cases (plain setting program).expect value parameter.type.text state <;> trivial
      · exact (ih parameters).weaken (fun _ => id) fun _ _ hlength => congrArg (· + 1) hlength

/-- Functions with one head do the same if their bodies do, whatever the caller has in its
variables. -/
theorem agrees_invoke {function function' : FunctionDef}
    (hparameters : function'.parameters = function.parameters)
    (hreturn : function'.returnType = function.returnType)
    (hbody : values.length = function.parameters.length →
      Matches excused (Fixed (Env.ofArguments function.parameters values)
          (Env.ofArguments function.parameters values))
        ((plain setting program).execAll evaluate function.body)
        ((plain setting program').execAll evaluate' function'.body) fun _ _ => True) :
    Agrees excused env env' ((plain setting program).invoke evaluate function values)
      ((plain setting program').invoke evaluate' function' values) := by
  unfold invoke
  rw [hparameters, hreturn]
  -- arguments are checked alike; if they pass, there are as many as parameters
  have hexpect : Relates excused (Beside (Fixed env env'))
      ((plain setting program).expectAll values function.parameters)
      ((plain setting program').expectAll values function.parameters)
      fun _ _ state state' =>
      values.length = function.parameters.length ∧ Beside (Fixed env env') state state' :=
    ((matches_expectAll values _).and_holds (holds_expectAll_length values _)).weaken
      (fun _ _ => id)
      fun _ _ _ _ hstate => ⟨hstate.1, hstate.2.2⟩
  refine chain hexpect fun _ _ hlength => ?_
  refine get_bind fun state state' hstate => ?_
  obtain ⟨⟨rfl, rfl⟩, hworld⟩ := hstate
  have hstart : Relates excused (fun found found' => found = state ∧ found' = state')
      (modifyEnv fun _ => Env.ofArguments function.parameters values)
      (modifyEnv fun _ => Env.ofArguments function.parameters values)
      fun value value' found found' => value' = value ∧ Beside (Fixed
        (Env.ofArguments function.parameters values) (Env.ofArguments function.parameters values))
        found found' := by
    rintro _ _ ⟨rfl, rfl⟩
    exact ⟨_, _, rfl, rfl, ⟨rfl, rfl⟩, hworld⟩
  -- whatever the body has done to its variables, the caller gets back its own
  have hback : Matches excused (fun _ _ => True) (modifyEnv fun _ => state.env)
      (modifyEnv fun _ => state'.env) (Fixed state.env state'.env) :=
    matches_modifyEnv fun _ _ _ => ⟨rfl, rfl⟩
  refine step hstart fun _ => ?_
  refine step (hbody hlength) fun result => ?_
  refine step hback fun _ => ?_
  refine step (matches_conclude _ result) fun value => ?_
  exact fun found found' hfound => ⟨_, _, rfl, rfl, hfound⟩

theorem agrees_print (value : Value Data) :
      Agrees excused env env' ((plain setting program).print value)
        ((plain setting program').print value) := by
  rintro state state' ⟨henv, hworld⟩
  cases value with
  | nothing => exact .inr ⟨_, rfl, hworld⟩
  | unset => exact ⟨_, _, rfl, rfl, henv, by simp [hworld]⟩
  | truth => exact .inr ⟨_, rfl, hworld⟩
  | object data =>
    cases data with
    | integer => exact .inr ⟨_, rfl, hworld⟩
    | text => exact ⟨_, _, rfl, rfl, henv, by simp [hworld]⟩
  | static => exact .inr ⟨_, rfl, hworld⟩

theorem agrees_input :
    Agrees excused env env' (plain setting program).input (plain setting program').input := by
  rintro state state' ⟨henv, hworld⟩
  exact ⟨_, _, rfl, by simp [hworld], henv, by simp [hworld]⟩

/-- What is built in does the same in all programs. -/
theorem agrees_builtin {action : Run Data Unit (Value Data)}
    (h : (plain setting program).builtin? name values = some action) :
    ∃ action', (plain setting program').builtin? name values = some action' ∧
      Agrees excused env env' action action' := by
  unfold builtin? at h ⊢
  split at h
  · cases h
    exact ⟨_, rfl, agrees_print _⟩
  · cases h
    exact ⟨_, rfl, agrees_input⟩
  · cases h

theorem builtin?_congr (h : (plain setting program).builtin? name values = none) :
    (plain setting program').builtin? name values = none := by
  unfold builtin? at h ⊢
  split at h
  · cases h
  · cases h
  · rfl

/-- A call does what it does, whatever the caller has in its variables. -/
theorem callersAgree_self (strategy : Machine.Strategy Data Unit) (depth : Nat) :
    CallersAgree excused ((plain setting program).call strategy depth)
      ((plain setting program).call strategy depth) := by
  intro name values env env'
  cases hbuiltin : (plain setting program).builtin? name values with
  | some =>
    obtain ⟨action', haction', hagrees⟩ := agrees_builtin hbuiltin
    rw [hbuiltin] at haction'
    cases haction'
    rw [call_builtin hbuiltin]
    exact hagrees
  | none =>
    cases hdefinition : (plain setting program).definition? name with
    | none =>
      rw [call_undefined hbuiltin hdefinition]
      exact matches_throw
    | some =>
      cases depth with
      | zero =>
        rw [call_zero hbuiltin hdefinition]
        exact matches_throw
      | succ =>
        rw [call_succ hbuiltin hdefinition]
        -- a body started twice in one environment does the same twice
        have hbody : ∀ (start : Env Data) (action : Run Data Unit (Option (Value Data))),
            Matches excused (Fixed start start) action action fun _ _ => True := by
          rintro start action ⟨env, store, world⟩ ⟨env', store', world'⟩ ⟨⟨henv, henv'⟩, hworld⟩
          cases henv
          cases henv'
          cases hworld
          cases haction : action ⟨env, store, world⟩ with
          | ok value after => exact ⟨value, after, rfl, rfl, trivial, rfl⟩
          | error halt after => exact .inr ⟨after, rfl, rfl⟩
        exact agrees_invoke rfl rfl fun _ => hbody _ _

end Calls

end Execution

end FrontEnd
