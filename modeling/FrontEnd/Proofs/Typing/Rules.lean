import FrontEnd.Proofs.Scope.Direct
import FrontEnd.Proofs.Scope.File
import FrontEnd.Refcount.TempNames
import Mathlib.Data.List.Forall2

/-!
# What a successful check says

Checking on one stack either fails or tells that a program keeps the rules of the language. Here it
is said of the actions, one by one, when they succeed: which conditions a statement fulfils on the
stack that it met, and which stack it leaves behind (`execute_eq_ok_iff`). What comes later needs no
other knowledge of how the checks are made.

The rules for expressions have a form of their own (`Stands`): what an expression stands for depends
on what the names in it stand for, and on nothing else. The variables among them must have values
(`Stack.Settled`). After an expression was looked at, the variables that it names are marked as used
(`Stack.read`), and this is all that has changed (`infer_eq_ok_iff`).
-/

namespace FrontEnd

open List Scope FunctionDef

namespace Direct

variable {α β : Type} {action : Action α} {state final : State} {result : β} {name target : Name}
  {location : Location} {signature : Signature} {expression value : Expr} {tier : Tier}
  {outer : Stack} {warnings : List Warning} {function : FunctionDef} {functions : List FunctionDef}
  {program : Program}

/-! ### Successful actions -/

theorem bind_eq_ok_iff {σ : Type} {action : EStateM Error σ α} {next : α → EStateM Error σ β}
    {state final : σ} :
    (action >>= next) state = .ok result final ↔
      ∃ value middle, action state = .ok value middle ∧ next value middle = .ok result final := by
  simp only [Bind.bind, EStateM.bind]
  cases action state <;> simp

theorem map_eq_ok_iff {f : α → β} : (f <$> action) state = .ok result final ↔
    ∃ value, action state = .ok value final ∧ f value = result := by
  simp only [Functor.map, EStateM.map]
  cases action state <;> simp [and_comm]

@[simp] theorem pure_eq_ok_iff {value : β} : (pure value : Action β) state = .ok result final ↔
    value = result ∧ state = final := by
  simp [Pure.pure, EStateM.pure]

@[simp] theorem throw_ne_ok {error : Error} :
    (throw error : Action β) state ≠ .ok result final := by
  rintro ⟨⟩

/-- A test, and an error if it fails. -/
theorem unless_eq_ok_iff {test : Prop} [Decidable test] {error : Error} {done : Unit} :
    (if test then pure () else throw error : Action Unit) state = .ok done final ↔
      test ∧ state = final := by
  split <;> simp [*]

theorem modifyStack_eq_ok_iff {change : Stack → Stack} {done : Unit} :
    modifyStack change state = .ok done final ↔
    final = { state with stack := change state.stack } := by
  constructor
  · intro h
    cases h
    rfl
  · rintro rfl
    rfl

/-! ### What names stand for -/

namespace Stack

/-- What a name stands for. -/
def entity (stack : Stack) (name : String) : Option Entity :=
  (stack.find name).map (·.1.entity)

/-- The stack after some names were read. -/
def read (stack : Stack) (names : List String) : Stack :=
  names.foldl (fun stack name => stack.update name fun old => { old with used := true }) stack

section

variable (stack : Stack)
include stack

@[simp] theorem read_nil : stack.read [] = stack := rfl

theorem read_cons (name : String) (names : List String) : stack.read (name :: names) =
      (stack.update name fun old => { old with used := true }).read names := rfl

theorem read_append (names others : List String) :
    stack.read (names ++ others) = (stack.read names).read others :=
  foldl_append

/-- Changing a variable changes nothing but the variable, and no look-up of another name. -/
theorem find_update (name other : String) (change : Variable → Variable) :
    (stack.update name change).find other =
      if other = name then (stack.find other).map fun found => (change found.1, found.2)
      else stack.find other := by
  induction stack with
  | nil => simp [update, find]
  | cons tier outer ih =>
    simp only [update]
    cases hlookup : tier.table.lookup name with
    | some =>
      simp only [find, Table.lookup_adjust]
      by_cases hname : other = name
      · subst hname
        simp [hlookup]
      · simp only [if_neg hname]
    | none =>
      simp only [find]
      by_cases hname : other = name
      · subst hname
        simp only [hlookup, ih, if_true]
      · simp only [ih, if_neg hname]

theorem entity_update (name other : String) {change : Variable → Variable}
    (h : ∀ old, (change old).entity = old.entity) :
    (stack.update name change).entity other = stack.entity other := by
  unfold entity
  rw [find_update]
  split
  · rw [Option.map_map]
    exact congrArg (Option.map · (stack.find other)) (funext fun found => h found.1)
  · rfl

@[simp] theorem entity_read (names : List String) (name : String) :
    (stack.read names).entity name = stack.entity name := by
  induction names generalizing stack with
  | nil => rfl
  | cons first names ih =>
    rw [read_cons, ih]
    exact stack.entity_update first name fun _ => rfl

theorem entity_read_eq (names : List String) : (stack.read names).entity = stack.entity :=
  funext (stack.entity_read names)

end

end Stack

/-! ### Expressions -/

mutual

/-- **The rules for expressions.** What an expression stands for, if names stand for the given
things. Only a call can stand for nothing. -/
def Stands (entities : String → Option Entity) : Expr → Option Entity → Prop
  | .name name, entity => ∃ found, entities name.text = some found ∧ entity = some found
  | .integer _ _, entity => entity = some (.value .int)
  | .string _ _, entity => entity = some (.value .string)
  | .call function arguments _, entity =>
    ∃ callee signature values, Stands entities function (some callee) ∧
      callee.signature? = some signature ∧ StandAll entities arguments values ∧
      Infer.argumentsMatch values signature.parameters = true ∧
      entity = signature.returns.map Entity.value

/-- What the arguments of a call stand for. -/
def StandAll (entities : String → Option Entity) : List Expr → List Entity → Prop
  | [], values => values = []
  | argument :: arguments, values =>
    ∃ first rest, Stands entities argument (some first) ∧ StandAll entities arguments rest ∧
      values = first :: rest

end

/-! ### Names that have values -/

/-- Variables among some names all have values. -/
def Stack.Settled (stack : Stack) (names : List String) : Prop :=
  ∀ name ∈ names, ∀ found kind, stack.find name = some (found, kind) → found.initialized = true

namespace Stack.Settled

variable {stack : Stack} {names others : List String}

theorem nil : stack.Settled [] :=
  forall_mem_nil _

/-- That a variable is used says nothing about its value. -/
theorem read_iff : (stack.read others).Settled names ↔ stack.Settled names := by
  induction others generalizing stack with
  | nil => rfl
  | cons other others ih =>
    rw [read_cons, ih]
    refine forall₂_congr fun name _ => ?_
    rw [find_update]
    split
    · constructor
      · exact fun h found kind hfound => h { found with used := true } kind (by rw [hfound]; rfl)
      · intro h found kind hfound
        obtain ⟨⟨old, _⟩, hold, heq⟩ := Option.map_eq_some_iff.mp hfound
        cases heq
        exact h old _ hold
    · rfl

theorem append_iff : stack.Settled (names ++ others) ↔ stack.Settled names ∧ stack.Settled others :=
  forall_mem_append

end Stack.Settled

/-- What an expression stands for on a stack, on which the variables in it have values. -/
structure Inferable (stack : Stack) (expression : Expr) (entity : Option Entity) : Prop where
  stands : Stands stack.entity expression entity
  settled : stack.Settled expression.names

theorem resolve_eq_ok_iff {entity : Entity} : resolve name state = .ok entity final ↔
    (state.stack.entity name.text = some entity ∧ state.stack.Settled [name.text]) ∧
    state = final := by
  rw [resolve, bind_get]
  simp only [Stack.Settled, forall_mem_singleton, Stack.entity]
  cases hfind : state.stack.find name.text with
  | none => simp
  | some found =>
    obtain ⟨found, kind⟩ := found
    cases hinitialized : found.initialized <;> simp [hinitialized]

theorem readName_eq_ok_iff {entity : Entity} : readName name state = .ok entity final ↔
    (state.stack.entity name.text = some entity ∧ state.stack.Settled [name.text]) ∧
      final = { state with stack := state.stack.read [name.text] } := by
  simp only [readName, bind_eq_ok_iff, resolve_eq_ok_iff, modifyStack_eq_ok_iff, pure_eq_ok_iff]
  grind [Stack.read_cons, Stack.read_nil]

theorem needValue_eq_ok_iff {entity : Option Entity} {value : Entity} :
    needValue location entity state = .ok value final ↔ entity = some value ∧ state = final := by
  cases entity <;> simp [needValue]

theorem applySignature_eq_ok_iff {arguments : List Entity} {entity : Option Entity} :
    applySignature signature arguments location state = .ok entity final ↔
      Infer.argumentsMatch arguments signature.parameters = true ∧
        signature.returns.map Entity.value = entity ∧ state = final := by
  unfold applySignature
  split <;> simp [*]

mutual

/-- **When an expression can be looked at**, and what it stands for then. -/
theorem infer_eq_ok_iff : ∀ (expression : Expr) {state final : State} {entity : Option Entity},
    infer expression state = .ok entity final ↔
      Inferable state.stack expression entity ∧
      final = { state with stack := state.stack.read expression.names }
  | .name name, state, final, entity => by
    simp only [infer, map_eq_ok_iff, readName_eq_ok_iff]
    constructor
    · rintro ⟨found, ⟨⟨hentity, hsettled⟩, rfl⟩, rfl⟩
      exact ⟨⟨⟨found, hentity, rfl⟩, hsettled⟩, rfl⟩
    · rintro ⟨⟨⟨found, hentity, rfl⟩, hsettled⟩, rfl⟩
      exact ⟨found, ⟨⟨hentity, hsettled⟩, rfl⟩, rfl⟩
  | .integer _ _, state, final, entity | .string _ _, state, final, entity => by
    simp only [infer, pure_eq_ok_iff]
    constructor
    · rintro ⟨rfl, rfl⟩
      exact ⟨⟨rfl, .nil⟩, rfl⟩
    · rintro ⟨⟨hstands, -⟩, rfl⟩
      exact ⟨hstands.symm, rfl⟩
  | .call function arguments location, state, final, entity => by
    simp only [infer, bind_eq_ok_iff, infer_eq_ok_iff function, needValue_eq_ok_iff]
    constructor
    · rintro ⟨_, _, ⟨⟨hcallee, hsettled⟩, rfl⟩, callee, _, ⟨rfl, rfl⟩, happly⟩
      cases hsignature : callee.signature? with
      | none => rw [hsignature] at happly; cases happly
      | some signature =>
        rw [hsignature] at happly
        obtain ⟨values, _, harguments, hmatches⟩ := bind_eq_ok_iff.mp happly
        obtain ⟨hall, hothers, rfl⟩ := (inferArguments_eq_ok_iff arguments).mp harguments
        obtain ⟨hmatch, rfl, rfl⟩ := applySignature_eq_ok_iff.mp hmatches
        -- reading the callee marks names and changes no entity
        rw [Stack.entity_read_eq] at hall
        rw [Stack.Settled.read_iff] at hothers
        refine ⟨⟨⟨callee, signature, values, hcallee, hsignature, hall, hmatch, rfl⟩, ?_⟩, ?_⟩
        · exact Stack.Settled.append_iff.mpr ⟨hsettled, hothers⟩
        · rw [Expr.names, Stack.read_append]
    · rintro ⟨⟨⟨callee, signature, values, hcallee, hsignature, hall, hmatch, rfl⟩, hsettled⟩, rfl⟩
      rw [Expr.names, Stack.Settled.append_iff] at hsettled
      refine ⟨_, _, ⟨⟨hcallee, hsettled.1⟩, rfl⟩, callee, _, ⟨rfl, rfl⟩, ?_⟩
      rw [hsignature]
      refine bind_eq_ok_iff.mpr
        ⟨values, _, (inferArguments_eq_ok_iff arguments).mpr ⟨?_, ?_, rfl⟩, ?_⟩
      · rwa [Stack.entity_read_eq]
      · exact Stack.Settled.read_iff.mpr hsettled.2
      · exact applySignature_eq_ok_iff.mpr ⟨hmatch, rfl, by rw [Expr.names, Stack.read_append]⟩

theorem inferArguments_eq_ok_iff : ∀ (arguments : List Expr) {state final : State}
    {values : List Entity}, inferArguments arguments state = .ok values final ↔
      StandAll state.stack.entity arguments values ∧
      state.stack.Settled (Expr.namesOfAll arguments) ∧
        final = { state with stack := state.stack.read (Expr.namesOfAll arguments) }
  | [], state, final, values => by
    simp only [inferArguments, pure_eq_ok_iff]
    constructor
    · rintro ⟨rfl, rfl⟩
      exact ⟨rfl, .nil, rfl⟩
    · rintro ⟨hstands, -, rfl⟩
      exact ⟨hstands.symm, rfl⟩
  | argument :: arguments, state, final, values => by
    simp only [inferArguments, bind_eq_ok_iff, infer_eq_ok_iff argument,
      inferArguments_eq_ok_iff arguments, needValue_eq_ok_iff, pure_eq_ok_iff]
    constructor
    · rintro ⟨_, _, ⟨⟨hfirst, hsettled⟩, rfl⟩, first, _, ⟨rfl, rfl⟩, rest, _,
        ⟨hall, hothers, rfl⟩, rfl, rfl⟩
      rw [Stack.entity_read_eq] at hall
      rw [Stack.Settled.read_iff] at hothers
      refine ⟨⟨first, rest, hfirst, hall, rfl⟩,
        Stack.Settled.append_iff.mpr ⟨hsettled, hothers⟩, ?_⟩
      rw [Expr.namesOfAll, Stack.read_append]
    · rintro ⟨⟨first, rest, hfirst, hall, rfl⟩, hsettled, rfl⟩
      rw [Expr.namesOfAll, Stack.Settled.append_iff] at hsettled
      refine ⟨_, _, ⟨⟨hfirst, hsettled.1⟩, rfl⟩, first, _, ⟨rfl, rfl⟩, rest, _,
        ⟨?_, ?_, rfl⟩, rfl, ?_⟩
      · rwa [Stack.entity_read_eq]
      · exact Stack.Settled.read_iff.mpr hsettled.2
      · rw [Expr.namesOfAll, Stack.read_append]

end

theorem inferValue_eq_ok_iff {entity : Entity} : inferValue expression state = .ok entity final ↔
    Inferable state.stack expression (some entity) ∧
      final = { state with stack := state.stack.read expression.names } := by
  simp only [inferValue, bind_eq_ok_iff, infer_eq_ok_iff, needValue_eq_ok_iff]
  grind

/-! ### Statements -/

namespace Stack

/-- The stack with one more variable in the innermost body. -/
def declared (stack : Stack) (name : String) (new : Variable) : Stack :=
  stack.modifyTop fun tier => { tier with table := tier.table.insert name new }

/-- The stack with one more statement that is kept. -/
def emitted (stack : Stack) (stmt : Stmt) : Stack :=
  stack.modifyTop fun tier => { tier with output := tier.output ++ [stmt] }

theorem returns_update (stack : Stack) (name : String) (change : Variable → Variable) :
    (stack.update name change).returns = stack.returns := by
  cases stack with
  | nil => rfl
  | cons =>
    simp only [update]
    split <;> rfl

@[simp] theorem returns_read (stack : Stack) (names : List String) :
    (stack.read names).returns = stack.returns := by
  induction names generalizing stack with
  | nil => rfl
  | cons name names ih => rw [read_cons, ih, returns_update]

end Stack

theorem emit_eq_ok_iff {stmt : Stmt} {done : Unit} : emit stmt state = .ok done final ↔
    final = { state with stack := state.stack.emitted stmt } := by
  rw [emit, modifyStack_eq_ok_iff, Stack.emitted]

/-- A statement is kept behind the action that looks at it. -/
theorem bind_emit_eq_ok_iff {action : Action Unit} {stmt : Stmt} :
    (action >>= fun _ => emit stmt) state = .ok () final ↔
      ∃ middle, action state = .ok () middle ∧
      final = { middle with stack := middle.stack.emitted stmt } := by
  simp only [bind_eq_ok_iff, emit_eq_ok_iff]
  grind

theorem ensureFree_eq_ok_iff {name : String} {done : Unit} :
    ensureFree name location state = .ok done final ↔
      state.stack.clash name = none ∧ state = final := by
  rw [ensureFree, bind_get]
  cases state.stack.clash name <;> simp

theorem typeNamed_eq_ok_iff {type : Ty} : typeNamed name state = .ok type final ↔
    (state.stack.entity name.text = some (.type type) ∧ state.stack.Settled [name.text]) ∧
    state = final := by
  simp only [typeNamed, bind_eq_ok_iff, resolve_eq_ok_iff]
  constructor
  · rintro ⟨entity, _, ⟨hentity, rfl⟩, hmatch⟩
    cases entity with
    | type =>
      cases hmatch
      exact ⟨hentity, rfl⟩
    | value => cases hmatch
  · rintro ⟨hentity, rfl⟩
    exact ⟨_, _, ⟨hentity, rfl⟩, rfl⟩

theorem declareVariable_eq_ok_iff {type : Name} {name : String} :
    declareVariable type name location state = .ok () final ↔
      state.stack.clash name = none ∧ ∃ found,
      (state.stack.entity type.text = some (.type found) ∧ state.stack.Settled [type.text]) ∧
      final = { state with
        stack := state.stack.declared name ⟨.value found, some location, false, false⟩ } := by
  simp only [declareVariable, bind_eq_ok_iff, ensureFree_eq_ok_iff, typeNamed_eq_ok_iff, declare,
    modifyStack_eq_ok_iff, Stack.declared]
  grind

theorem undeclared_ne_ok : undeclared target value location state ≠ .ok () final := by
  unfold undeclared
  split <;> simp

theorem assign_eq_ok_iff : assign target value location state = .ok () final ↔
    ∃ found, state.stack.find target.text = some (found, .inner) ∧
      Inferable state.stack value (some found.entity) ∧ final = { state with
        stack := (state.stack.read value.names).update target.text fun old =>
          { old with initialized := true } } := by
  rw [assign, bind_get]
  cases hfind : state.stack.find target.text with
  | none => simpa using undeclared_ne_ok
  | some found =>
    obtain ⟨found, kind⟩ := found
    simp only
    constructor
    · intro h
      by_cases hkind : kind = .inner
      · rw [if_neg (by simpa using hkind)] at h
        obtain ⟨received, _, hvalue, hrest⟩ := bind_eq_ok_iff.mp h
        obtain ⟨hinfer, rfl⟩ := inferValue_eq_ok_iff.mp hvalue
        by_cases hreceived : received = found.entity
        · rw [if_neg (by simpa using hreceived)] at hrest
          cases hrest
          exact ⟨found, by rw [hkind], hreceived ▸ hinfer, rfl⟩
        · rw [if_pos hreceived] at hrest
          cases hrest
      · rw [if_pos hkind] at h
        cases h
    · rintro ⟨_, hsame, hinfer, rfl⟩
      cases hsame
      simp only [ne_eq, not_true_eq_false, if_false]
      refine bind_eq_ok_iff.mpr ⟨_, _, inferValue_eq_ok_iff.mpr ⟨hinfer, rfl⟩, ?_⟩
      simp only [not_true_eq_false, if_false]
      rfl

theorem condition_eq_ok_iff {done : Unit} : condition expression state = .ok done final ↔
    Inferable state.stack expression (some (.value .bool)) ∧
      final = { state with stack := state.stack.read expression.names } := by
  simp only [condition, bind_eq_ok_iff, inferValue_eq_ok_iff, unless_eq_ok_iff,
    Entity.isValueOf_iff]
  grind

theorem returned_eq_ok_iff : returned value location state = .ok () final ↔
    ∃ expected, state.stack.returns = some expected ∧
    Inferable state.stack value (some (.value expected)) ∧
      final = { state with stack := state.stack.read value.names } := by
  simp only [returned, bind_eq_ok_iff, inferValue_eq_ok_iff]
  constructor
  · rintro ⟨received, _, ⟨hinfer, rfl⟩, _, _, hget, hmatch⟩
    cases hget
    simp only [Stack.returns_read] at hmatch
    cases hreturns : state.stack.returns with
    | none => rw [hreturns] at hmatch; cases hmatch
    | some expected =>
      rw [hreturns] at hmatch
      obtain ⟨hvalue, rfl⟩ := unless_eq_ok_iff.mp hmatch
      cases Entity.isValueOf_iff.mp hvalue
      exact ⟨expected, rfl, hinfer, rfl⟩
  · rintro ⟨expected, hreturns, hinfer, rfl⟩
    refine ⟨_, _, ⟨hinfer, rfl⟩, _, _, rfl, ?_⟩
    simp only [Stack.returns_read, hreturns]
    exact unless_eq_ok_iff.mpr ⟨Entity.isValueOf_iff.mpr rfl, rfl⟩

/-- An expression without an effect changes nothing, but the name that it may be has to have a
value. -/
theorem idle_eq_ok_iff (hcall : expression.isCall = false) : idle expression state = .ok () final ↔
    (∃ entity, Inferable state.stack expression entity) ∧ final = state := by
  cases expression with
  | name =>
    simp only [idle, bind_eq_ok_iff, resolve_eq_ok_iff, pure_eq_ok_iff]
    constructor
    · rintro ⟨entity, _, ⟨⟨hentity, hsettled⟩, rfl⟩, -, rfl⟩
      exact ⟨⟨some entity, ⟨entity, hentity, rfl⟩, hsettled⟩, rfl⟩
    · rintro ⟨⟨_, ⟨entity, hentity, rfl⟩, hsettled⟩, rfl⟩
      exact ⟨entity, final, ⟨⟨hentity, hsettled⟩, rfl⟩, trivial, rfl⟩
  | integer digits location | string text location =>
    simp only [idle, pure_eq_ok_iff, true_and, eq_comm (a := state)]
    exact ⟨fun h => ⟨⟨_, rfl, .nil⟩, h⟩, fun h => h.2⟩
  | call => cases hcall

theorem inBody_eq_ok_iff {action : Action Unit} : inBody action state = .ok tier final ↔
    ∃ middle, action { state with stack := state.stack.push } = .ok () middle ∧
      tier = middle.stack.headD default ∧ final = { middle with stack := middle.stack.tail } := by
  constructor
  · intro h
    obtain ⟨_, _, hpush, hrest⟩ := bind_eq_ok_iff.mp h
    cases hpush
    obtain ⟨_, middle, haction, hpop⟩ := bind_eq_ok_iff.mp hrest
    cases hpop
    exact ⟨middle, haction, rfl, rfl⟩
  · rintro ⟨middle, haction, rfl, rfl⟩
    exact bind_eq_ok_iff.mpr ⟨(), _, rfl, bind_eq_ok_iff.mpr ⟨(), middle, haction, rfl⟩⟩

/-- **The rules for statements** on a stack, and the state that a statement leaves behind. -/
def Executed (state : State) : Stmt → State → Prop
  | .declaration type name location, final => state.stack.clash name = none ∧ ∃ found,
      (state.stack.entity type.text = some (.type found) ∧ state.stack.Settled [type.text]) ∧
      final = { state with
        stack := (state.stack.declared name ⟨.value found, some location, false, false⟩).emitted
          (.declaration type name location) }
  | .assignment target value location, final => ∃ found,
      state.stack.find target.text = some (found, .inner) ∧
      Inferable state.stack value (some found.entity) ∧
      final = { state with
        stack := ((state.stack.read value.names).update target.text fun old =>
          { old with initialized := true }).emitted (.assignment target value location) }
  | .conditional expression body location, final =>
    Inferable state.stack expression (some (.value .bool)) ∧ ∃ inner,
      executeAll body { state with stack := (state.stack.read expression.names).push } =
        .ok () inner ∧
      final =
        { stack := Stack.emitted inner.stack.tail
            (.conditional expression (inner.stack.headD default).pruned location)
          warnings := inner.warnings ++ (inner.stack.headD default).warnings }
  | .result value location, final => ∃ expected, state.stack.returns = some expected ∧
      Inferable state.stack value (some (.value expected)) ∧
      final = { state with
        stack := (state.stack.read value.names).emitted (.result value location) }
  | .function .., _ => False
  | .expression expression location, final => (∃ entity, Inferable state.stack expression entity) ∧
      (expression.isCall = true ∧
        final = { state with
          stack := (state.stack.read expression.names).emitted (.expression expression location) } ∨
      expression.isCall = false ∧
        final = { state with warnings := state.warnings ++ [⟨.noEffect, location⟩] })
  | .retain name location, final =>
    final = { state with stack := state.stack.emitted (.retain name location) }
  | .release name location, final =>
    final = { state with stack := state.stack.emitted (.release name location) }

/-- **A statement can be checked exactly if it keeps the rules.** -/
theorem execute_eq_ok_iff {stmt : Stmt} :
    execute stmt state = .ok () final ↔ Executed state stmt final := by
  cases stmt with
  | declaration type name location =>
    simp only [execute, bind_emit_eq_ok_iff, declareVariable_eq_ok_iff, Executed]
    grind
  | assignment target value location =>
    simp only [execute, bind_emit_eq_ok_iff, assign_eq_ok_iff, Executed]
    grind
  | conditional =>
    simp only [execute, bind_eq_ok_iff, condition_eq_ok_iff, inBody_eq_ok_iff, Executed]
    constructor
    · rintro ⟨_, _, ⟨hinfer, rfl⟩, _, _, ⟨inner, hbody, rfl, rfl⟩, _, _, hfinish, hemit⟩
      cases hfinish
      cases hemit
      exact ⟨hinfer, inner, hbody, rfl⟩
    · rintro ⟨hinfer, inner, hbody, rfl⟩
      exact ⟨(), _, ⟨hinfer, rfl⟩, _, _, ⟨inner, hbody, rfl, rfl⟩, _, _, rfl, rfl⟩
  | result value location =>
    simp only [execute, bind_emit_eq_ok_iff, returned_eq_ok_iff, Executed]
    grind
  | function => simp [execute, Executed]
  | expression expression location =>
    rw [execute, Executed]
    cases hcall : expression.isCall with
    | true =>
      simp only [if_true, bind_eq_ok_iff, infer_eq_ok_iff, emit_eq_ok_iff]
      grind
    | false =>
      simp only [Bool.false_eq_true, if_false, bind_eq_ok_iff, idle_eq_ok_iff hcall, false_and,
        false_or, true_and]
      constructor
      · rintro ⟨_, _, hwarn, hidle, rfl⟩
        cases hwarn
        exact ⟨hidle, rfl⟩
      · rintro ⟨hidle, rfl⟩
        exact ⟨(), _, rfl, hidle, rfl⟩
  | retain name location | release name location => rw [execute, Executed, emit_eq_ok_iff]

theorem executeAll_cons_eq_ok_iff {stmt : Stmt} {block : List Stmt} :
      executeAll (stmt :: block) state = .ok () final ↔
        ∃ middle, execute stmt state = .ok () middle ∧ executeAll block middle = .ok () final := by
  rw [executeAll, bind_eq_ok_iff]
  exact Unique.exists_iff

/-! ### Functions and programs -/

/-- A parameter in the table of its function. -/
def parameterEntry (parameter : Parameter) (type : Ty) : String × Variable :=
  (parameter.name.text, ⟨.value type, some parameter.name.location, true, true⟩)

/-- Behind a new variable, the other names are free that were. -/
theorem Stack.clash_append_iff {name other : String} {new : Variable} :
    clash ({ tier with table := tier.table ++ [(name, new)] } :: outer) other = none ↔
      other ≠ name ∧ clash (tier :: outer) other = none := by
  simp only [clash, lookup_append, lookup_cons, lookup_nil]
  grind

theorem Stack.insert_of_clash {name : String} (hfree : clash (tier :: outer) name = none)
    (new : Variable) :
    tier.table.insert name new = tier.table ++ [(name, new)] := by
  refine Table.insert_of_lookup_eq_none ?_ new
  cases hlookup : tier.table.lookup name with
  | none => rfl
  | some => simp [clash, hlookup] at hfree

theorem declareParameters_eq_ok_iff {parameters : List Parameter} {types : List Ty} {done : Unit}
    (hlength : parameters.length = types.length) :
    declareParameters parameters types ⟨tier :: outer, warnings⟩ = .ok done final ↔
      ((parameters.map (·.name.text)).Nodup ∧ ∀ parameter ∈ parameters,
        Stack.clash (tier :: outer) parameter.name.text = none) ∧
      final = ⟨{ tier with table := tier.table ++ parameters.zipWith parameterEntry types } ::
        outer, warnings⟩ := by
  induction parameters generalizing types tier with
  | nil =>
    rw [declareParameters]
    · rw [pure_eq_ok_iff]
      simp [eq_comm]
    · rintro _ _ _ _ ⟨⟩
  | cons parameter parameters ih =>
    cases types with
    | nil => cases hlength
    | cons type types =>
      simp only [declareParameters, declareParameter, bind_eq_ok_iff, ensureFree_eq_ok_iff, declare,
        modifyStack_eq_ok_iff, map_cons, nodup_cons, forall_mem_cons, mem_map, not_exists, not_and]
      by_cases hfree : Stack.clash (tier :: outer) parameter.name.text = none
      · simp only [hfree, true_and, exists_eq_left', exists_eq_left, exists_const, Stack.modifyTop,
          Stack.insert_of_clash hfree, ih (Nat.succ.inj hlength), Stack.clash_append_iff]
        simp only [parameterEntry, zipWith_cons_cons, append_assoc, singleton_append]
        grind
      · simp [hfree]

/-- The body of a function before its statements, which holds the parameters. -/
def Tier.ofFunction (function : FunctionDef) : Tier :=
  { kind := .inner
    returns := function.signature.returns
    table := function.parameters.map fun parameter =>
      parameterEntry parameter (.named parameter.type.text) }

theorem ensureResult_eq_ok_iff {done : Unit} :
    ensureResult function.signature.returns function state = .ok done final ↔
      (function.returnType.isSome → endsWithResult function.body = true) ∧ state = final := by
  cases hcase : function.returnType with
  | none => simp [ensureResult, signature, hcase]
  | some =>
    simp only [signature, hcase, Option.map_some, ensureResult, unless_eq_ok_iff]
    simp

/-- The parameters of a function can be declared if they differ and hide nothing. -/
theorem declareParameters_signature_eq_ok_iff {file : Stack} {done : Unit} :
    declareParameters function.parameters function.signature.parameters
        ⟨{ kind := .inner, returns := function.signature.returns } :: file, warnings⟩ =
        .ok done final ↔
      ((function.parameters.map (·.name.text)).Nodup ∧ ∀ parameter ∈ function.parameters,
        Stack.clash ({ kind := .inner } :: file) parameter.name.text = none) ∧
      final = ⟨Tier.ofFunction function :: file, warnings⟩ := by
  rw [declareParameters_eq_ok_iff (by simp [signature]), nil_append]
  simp [Tier.ofFunction, signature, zipWith_map_right, zipWith_self, Stack.clash]

/-- **When a body can be checked**: its statements are fine behind its parameters. What is kept is
what is left of the body without the variables that nothing reads. -/
theorem functionBody_eq_ok_iff {body : List Stmt} {file : Stack} :
    functionBody function.signature function { stack := { kind := .inner } :: file } =
      .ok body final ↔
      ((function.parameters.map (·.name.text)).Nodup ∧ ∀ parameter ∈ function.parameters,
        Stack.clash ({ kind := .inner } :: file) parameter.name.text = none) ∧
      ∃ inner, executeAll function.body { stack := Tier.ofFunction function :: file } =
        .ok () inner ∧ (function.returnType.isSome → endsWithResult function.body = true) ∧
        body = (inner.stack.headD default).pruned ∧
        final = { inner with warnings := inner.warnings ++ (inner.stack.headD
          default).warnings } := by
  simp only [functionBody, bind_eq_ok_iff, modifyStack_eq_ok_iff, exists_eq_left, exists_const,
    Stack.modifyTop, declareParameters_signature_eq_ok_iff, ensureResult_eq_ok_iff]
  constructor
  · rintro ⟨_, ⟨hfree, rfl⟩, _, inner, hbody, _, ⟨hends, rfl⟩, _, _, hget, hfinish⟩
    cases hget
    cases hfinish
    exact ⟨hfree, inner, hbody, hends, rfl, rfl⟩
  · rintro ⟨hfree, inner, hbody, hends, rfl, rfl⟩
    exact ⟨_, ⟨hfree, rfl⟩, (), inner, hbody, _, ⟨hends, rfl⟩, _, _, rfl, rfl⟩

/-- What it says of a function of a file that it was checked, with the given result. -/
structure Checked (functions : List FunctionDef) (function checked : FunctionDef) : Prop where
  body : ∃ inner, executeAll function.body
      { stack := Tier.ofFunction function :: Stack.ofScope (file functions) } =
        .ok () inner ∧
    checked = { function with body := (inner.stack.headD default).pruned }
  ends : function.returnType.isSome → endsWithResult function.body = true
  /-- The parameters hide no name of the file. -/
  free : ∀ parameter ∈ function.parameters,
    (Stack.ofScope (file functions)).find parameter.name.text = none

/-- What a name of a file stands for does not stand in a body. -/
theorem kind_of_find_file {name : String} {found : Variable} {kind : ScopeKind}
    (h : (Stack.ofScope (file functions)).find name = some (found, kind)) : kind ≠ .inner := by
  rw [Stack.find_ofScope, lookup_file] at h
  cases hfind : functions.find? (·.name = name) with
  | some => rw [hfind] at h; cases h; simp
  | none =>
    rw [hfind] at h
    cases hlookup : builtin.own.table.lookup name with
    | none => rw [hlookup] at h; cases h
    | some => rw [hlookup] at h; cases h; simp

/-- Nothing that stands in a file may be hidden by a body. -/
theorem clash_file_iff {name : String} :
    Stack.clash ({ kind := .inner } :: Stack.ofScope (file functions)) name = none ↔
      (Stack.ofScope (file functions)).find name = none := by
  cases hfind : (Stack.ofScope (file functions)).find name with
  | none => simp [Stack.clash, hfind]
  | some found =>
    obtain ⟨found, kind⟩ := found
    simp [Stack.clash, hfind, kind_of_find_file hfind]

theorem find_file_of_mem (hnodup : (functions.map (·.name)).Nodup) (hmem : function ∈ functions) :
    functions.find? (·.name = function.name) = some function := by
  induction functions with
  | nil => cases hmem
  | cons first functions ih =>
    rw [map_cons, nodup_cons] at hnodup
    rcases mem_cons.mp hmem with rfl | hmem
    · simp
    · have hne : first.name ≠ function.name := fun heq =>
        hnodup.1 (heq ▸ mem_map_of_mem hmem)
      rw [find?_cons_of_neg (by simpa using hne), ih hnodup.2 hmem]

/-- **When a function can be checked**, and the report on it. -/
theorem checkFunction_eq_ok_iff (hnodup : (functions.map (·.name)).Nodup)
    (hmem : function ∈ functions) (hwell : function.WellFormed) {checked : FunctionDef} :
    checkFunction (Stack.ofScope (file functions)) function = ⟨.ok checked, warnings⟩ ↔
      (∀ parameter ∈ function.parameters,
        (Stack.ofScope (file functions)).find parameter.name.text = none) ∧
      (function.returnType.isSome → endsWithResult function.body = true) ∧ ∃ inner,
      executeAll function.body
          { stack := Tier.ofFunction function :: Stack.ofScope (file functions) } = .ok () inner ∧
        checked = { function with body := (inner.stack.headD default).pruned } ∧
        warnings = inner.warnings ++ (inner.stack.headD default).warnings := by
  -- the function finds itself in the scope of its file, with the signature it declares
  have hfind : (Stack.ofScope (file functions)).find function.name =
      some (function.declared, .file) := by
    rw [Stack.find_ofScope, lookup_file, find_file_of_mem hnodup hmem]
    rfl
  have hpush : (Stack.ofScope (file functions)).push =
      { kind := .inner } :: Stack.ofScope (file functions) := rfl
  have hbody {body : List Stmt} {final : State} : functionBody function.signature function
      { stack := { kind := .inner } :: Stack.ofScope (file functions) } = .ok body final ↔ _ :=
    functionBody_eq_ok_iff
  simp only [clash_file_iff, hwell.distinct, true_and] at hbody
  unfold checkFunction
  simp only [hfind, Option.bind_some, declared, Entity.signature?, Entity.valueType?,
    Signature.signature?_toTy, hpush]
  constructor
  · intro h
    split at h
    · next body final hrun =>
      cases h
      obtain ⟨hfree, inner, hexecute, hends, rfl, rfl⟩ := hbody.mp hrun
      exact ⟨hfree, hends, inner, hexecute, rfl, rfl⟩
    · cases h
  · rintro ⟨hfree, hends, inner, hexecute, rfl, rfl⟩
    rw [hbody.mpr ⟨hfree, inner, hexecute, hends, rfl, rfl⟩]

theorem functions_eq_ok (h : program.functions = .ok functions) :
    program = functions.map toStmt := by
  induction program generalizing functions with
  | nil => cases h; rfl
  | cons stmt program ih =>
    rw [Program.functions] at h
    cases hfunction : stmt.toFunctionDef? with
    | none => rw [hfunction] at h; cases h
    | some =>
      rw [hfunction] at h
      cases hrest : Program.functions program with
      | error => rw [hrest] at h; cases h
      | ok =>
        rw [hrest] at h
        cases h
        rw [map_cons, ← ih hrest, Stmt.toFunctionDef?_eq_some_iff.mp hfunction]

/-- What it says of the functions of a file that they were checked, with the given results: they
have proper heads and different names, one of them is `main`, and each of them was checked. -/
structure CheckedFile (functions checked : List FunctionDef) : Prop where
  wellFormed : ∀ function ∈ functions, function.WellFormed
  nodup : (functions.map (·.name)).Nodup
  main : ∃ function ∈ functions, function.name = "main"
  each : Forall₂ (Checked functions) functions checked

theorem checkFunctions_eq_ok {part checked : List FunctionDef}
    (hnodup : (functions.map (·.name)).Nodup) (hwell : ∀ function ∈ functions, function.WellFormed)
    (hpart : ∀ function ∈ part, function ∈ functions)
    (h : (checkFunctions (Stack.ofScope (file functions)) part).result = .ok checked) :
    Forall₂ (Checked functions) part checked := by
  induction part generalizing checked with
  | nil => cases h; exact .nil
  | cons function part ih =>
    rw [checkFunctions] at h
    rcases hfirst : checkFunction (Stack.ofScope (file functions)) function with
      ⟨_ | first, warnings⟩
    · rw [hfirst] at h; cases h
    · rw [hfirst] at h
      simp only at h
      cases hrest : (checkFunctions (Stack.ofScope (file functions)) part).result with
      | error => rw [hrest] at h; cases h
      | ok =>
        rw [hrest] at h
        cases h
        have hmem := hpart _ mem_cons_self
        obtain ⟨hfree, hends, inner, hbody, hchecked, -⟩ :=
          (checkFunction_eq_ok_iff hnodup hmem (hwell _ hmem)).mp hfirst
        exact .cons ⟨⟨inner, hbody, hchecked⟩, hends, hfree⟩
          (ih (fun other hother => hpart other (mem_cons_of_mem _ hother)) hrest)

/-- **A program that was checked** is a list of functions that were checked, and so is the
result. -/
theorem check_eq_ok {out : Program} (h : (check program).result = .ok out) :
    ∃ functions checked, program = functions.map toStmt ∧
      out = checked.map toStmt ∧ CheckedFile functions checked := by
  unfold check at h
  cases hfunctions : program.functions with
  | error => rw [hfunctions] at h; cases h
  | ok functions =>
    rw [hfunctions] at h
    cases hfile : Program.fileScope functions with
    | error => simp only [hfile] at h; cases h
    | ok file =>
      obtain ⟨hmain, hscope⟩ := Program.fileScope_eq_ok hfile
      obtain ⟨rfl, hwell, hnodup⟩ := ofFunctions_eq_ok hscope
      simp only [hfile] at h
      cases hresult : (checkFunctions (Stack.ofScope (file functions)) functions).result with
      | error => rw [hresult] at h; cases h
      | ok checked =>
        rw [hresult] at h
        cases h
        exact ⟨functions, checked, functions_eq_ok hfunctions, rfl, hwell, hnodup, hmain,
          checkFunctions_eq_ok hnodup hwell (fun _ => id) hresult⟩

end Direct

end FrontEnd
