import FrontEnd.Proofs.Execution.Files
import FrontEnd.Proofs.Typing.Growth

/-!
# The rules for statements

Which statements are allowed, said without a checker that goes through them (`Allowed`). The rules
are about an environment, as a run has it, of which it matters only what the variables are called,
which types they have and whether they have a value. They go with the rules for expressions
(`Direct.Stands`).

A check succeeds exactly on what is allowed (`agree_executeAll`). So a program that is made out of a
checked one can be checked again if the rules still hold, and for that no stack of a check has to be
looked at.
-/

namespace FrontEnd

open List

namespace Execution

open Direct (Tier Stack Stands StandAll Inferable execute executeAll execute_eq_ok_iff
  executeAll_cons_eq_ok_iff)

/-! ### The variables of an environment -/

namespace Env

variable {env current : Env Data} {slot new : Slot Data} {name : String} {value : Value Data}

/-- The names and types of the variables. -/
def layout (env : Env Data) : List (List (String × String)) :=
  env.map (·.map fun slot => (slot.name, slot.type))

theorem layout_declare (env : Env Data) (slot : Slot Data) :
    (env.declare slot).layout = env.layout.modifyHead ([(slot.name, slot.type)] ++ ·) := by
  cases env <;> rfl

theorem layout_update (env : Env Data) (name : String) (value : Value Data) :
    (env.update name value).layout = env.layout :=
  map_update _ (fun _ _ => rfl) name value env

theorem layout_tail (env : Env Data) : Env.layout env.tail = env.layout.tail :=
  map_tail

/-- Another environment has more variables in the innermost body at most. -/
def Grows (env after : Env Data) : Prop :=
  ∃ new, after.layout = env.layout.modifyHead (new ++ ·)

namespace Grows

theorem of_layout (h : current.layout = env.layout) : env.Grows current :=
  ⟨[], by rw [h]; cases env.layout <;> rfl⟩

theorem trans {after : Env Data} (h : env.Grows current) (h' : current.Grows after) :
    env.Grows after := by
  obtain ⟨new, hnew⟩ := h
  obtain ⟨more, hmore⟩ := h'
  exact ⟨more ++ new, by rw [hmore, hnew]; cases env.layout <;> simp⟩

theorem length_eq (h : env.Grows current) : current.length = env.length := by
  obtain ⟨new, hnew⟩ := h
  simpa [layout] using congrArg List.length hnew

theorem layout_tail (h : env.Grows current) : Env.layout current.tail = Env.layout env.tail := by
  obtain ⟨new, hnew⟩ := h
  rw [Env.layout_tail, hnew, tail_modifyHead, Env.layout_tail]

end Grows

theorem type_find_of_layout (h : current.layout = env.layout) (name : String) :
    (current.find name).map (·.type) = (env.find name).map (·.type) := by
  have hfind (env : Env Data) : (env.find name).map (·.type) =
      (env.layout.flatten.find? (·.1 = name)).map (·.2) := by
    rw [layout, ← map_flatten, find?_map, Option.map_map]
    rfl
  rw [hfind, hfind, h]

theorem mem_declare (h : slot ∈ (env.declare new).flatten) : slot = new ∨ slot ∈ env.flatten := by
  cases env with
  | nil => cases h
  | cons => exact mem_cons.mp h

end Env

/-! ### Rules -/

/-- What a variable holds of which it is only known that it has a value. -/
def filled : Value Data := .truth true

/-- What a name stands for: a variable, or something outside of bodies. -/
def entityIn (globals : String → Option Entity) (env : Env Data) (name : String) : Option Entity :=
  match env.find name with
  | some slot => some (.value (.named slot.type))
  | none => globals name

/-- No variable among the names is without a value. -/
def Assigned (env : Env Data) (names : List String) : Prop :=
  ∀ name ∈ names, ∀ slot, env.find name = some slot → slot.value ≠ .unset

/-- An expression that stands for something, and whose variables have values. -/
structure Usable (globals : String → Option Entity) (env : Env Data) (expression : Expr)
    (entity : Option Entity) : Prop where
  stands : Stands (entityIn globals env) expression entity
  ready : Assigned env expression.names

/-- A name that can be declared in the innermost body: there is no other variable of the name in
that body, and nothing of the name outside of bodies. -/
structure Free (globals : String → Option Entity) (env : Env Data) (name : String) : Prop where
  new : ∀ slot ∈ env.headD [], slot.name ≠ name
  unhidden : globals name = none

mutual

/-- **The rules for statements.** A statement is allowed where there are the variables of one
environment, and leaves those of the other one. -/
def Allowed (globals : String → Option Entity) (returns : Option Ty) :
    Stmt → Env Data → Env Data → Prop
  | .expression value _, env, after => (∃ entity, Usable globals env value entity) ∧ after = env
  | .declaration type name location, env, after =>
    Free globals env name ∧ entityIn globals env type.text = some (.type (.named type.text)) ∧
      after = env.declare { name, type := type.text, location }
  | .assignment target value _, env, after =>
    ∃ slot, env.find target.text = some slot ∧
      Usable globals env value (some (.value (.named slot.type))) ∧
      after = env.update target.text filled
  | .conditional condition body _, env, after =>
    Usable globals env condition (some (.value .bool)) ∧
      ∃ inner, AllowedAll globals returns body ([] :: env) inner ∧ after = inner.tail
  | .result value _, env, after =>
    (∃ expected, returns = some expected ∧ Usable globals env value (some (.value expected))) ∧
      after = env
  | .function .., _, _ => False
  | .retain .., env, after => after = env
  | .release .., env, after => after = env

/-- Statements that are allowed one after the other. -/
def AllowedAll (globals : String → Option Entity) (returns : Option Ty) :
    List Stmt → Env Data → Env Data → Prop
  | [], env, after => after = env
  | stmt :: block, env, after =>
    ∃ middle, Allowed globals returns stmt env middle ∧
      AllowedAll globals returns block middle after

end

mutual

/-- An expression stands for the same if the names in it do. -/
theorem stands_congr {entities others : String → Option Entity} : ∀ {expression : Expr}
    {entity : Option Entity}, Stands entities expression entity →
    (∀ name ∈ expression.names, others name = entities name) → Stands others expression entity
  | .name name, entity, h, hnames => by
    obtain ⟨found, hfound, rfl⟩ := h
    exact ⟨found, (hnames _ (mem_singleton_self _)).trans hfound, rfl⟩
  | .integer _ _, _, h, _ => h
  | .string _ _, _, h, _ => h
  | .call function arguments location, entity, h, hnames => by
    rw [Stands] at h
    obtain ⟨callee, signature, values, hfunction, hsignature, hall, hmatch, rfl⟩ := h
    rw [Expr.names, forall_mem_append] at hnames
    rw [Stands]
    exact ⟨callee, signature, values, stands_congr hfunction hnames.1, hsignature,
      standAll_congr hall hnames.2, hmatch, rfl⟩

theorem standAll_congr {entities others : String → Option Entity} : ∀ {arguments : List Expr}
    {values : List Entity}, StandAll entities arguments values →
    (∀ name ∈ Expr.namesOfAll arguments, others name = entities name) →
    StandAll others arguments values
  | [], _, h, _ => h
  | argument :: arguments, values, h, hnames => by
    rw [StandAll] at h
    obtain ⟨first, rest, hargument, hall, rfl⟩ := h
    rw [Expr.namesOfAll, forall_mem_append] at hnames
    rw [StandAll]
    exact ⟨first, rest, stands_congr hargument hnames.1, standAll_congr hall hnames.2, rfl⟩

end

section Rules

variable {globals : String → Option Entity} {returns : Option Ty} {env after : Env Data}

/-- An expression can be used wherever its names are the same variables. -/
theorem Usable.congr {env' : Env Data} {expression : Expr} {entity : Option Entity}
    (h : Usable globals env expression entity)
    (hfind : ∀ name ∈ expression.names, env'.find name = env.find name) :
    Usable globals env' expression entity := by
  refine ⟨stands_congr h.stands fun name hname => ?_, fun name hname slot hslot => ?_⟩
  · rw [entityIn, entityIn, hfind name hname]
  · exact h.ready name hname slot ((hfind name hname).symm.trans hslot)

/-- Only the name of a function can be called: variables have basic types, and so has what functions
return. -/
theorem callee_of_stands (hbasic : ∀ (name : String) (signature : Signature),
      globals name = some (.value signature.toTy) → ∀ type ∈ signature.returns, ∃ basic,
      type = Ty.named basic) :
    ∀ {function : Expr} {callee : Entity} {signature : Signature},
    Stands (entityIn globals env) function (some callee) → callee.signature? = some signature →
    ∃ name, function = .name name ∧ env.find name.text = none ∧
      globals name.text = some (.value signature.toTy)
  | .name name, callee, signature, hstands, hsignature => by
    obtain ⟨found, hentity, heq⟩ := hstands
    cases heq
    have hcallee : callee = .value signature.toTy := by
      cases callee with
      | type => cases hsignature
      | value => rw [Ty.signature?_eq_some_iff.mp hsignature]
    refine ⟨name, rfl, ?_⟩
    rw [entityIn] at hentity
    cases hfind : env.find name.text with
    | some =>
      rw [hfind] at hentity
      cases hentity
      cases hcallee
    | none =>
      rw [hfind] at hentity
      exact ⟨rfl, hcallee ▸ hentity⟩
  | .integer _ _, callee, signature, hstands, hsignature
  | .string _ _, callee, signature, hstands, hsignature => by cases hstands; cases hsignature
  | .call function arguments location, callee, signature, hstands, hsignature => by
    obtain ⟨inner, innerSignature, values, hinner, hinnerSignature, -, -, heq⟩ := hstands
    obtain ⟨name, -, -, hglobal⟩ := callee_of_stands hbasic hinner hinnerSignature
    obtain ⟨type, htype, rfl⟩ := Option.map_eq_some_iff.mp heq.symm
    obtain ⟨basic, rfl⟩ := hbasic _ _ hglobal type htype
    cases hsignature

/-- The name of a type is the name of no variable. -/
theorem entityIn_type {name : String} {type : Ty} : entityIn globals env name = some (.type type) ↔
      env.find name = none ∧ globals name = some (.type type) := by
  rw [entityIn]
  cases env.find name <;> simp

theorem AllowedAll.append {first second : List Stmt} {middle : Env Data}
    (hfirst : AllowedAll globals returns first env middle)
    (hsecond : AllowedAll globals returns second middle after) :
    AllowedAll globals returns (first ++ second) env after := by
  induction first generalizing env with
  | nil =>
    rw [AllowedAll] at hfirst
    exact hfirst ▸ hsecond
  | cons stmt first ih =>
    rw [AllowedAll] at hfirst
    obtain ⟨next, hstmt, hrest⟩ := hfirst
    rw [cons_append, AllowedAll]
    exact ⟨next, hstmt, ih hrest⟩

theorem allowedAll_singleton {stmt : Stmt} :
    AllowedAll globals returns [stmt] env after ↔ Allowed globals returns stmt env after := by
  simp only [AllowedAll]
  constructor
  · rintro ⟨middle, hstmt, rfl⟩
    exact hstmt
  · exact fun hstmt => ⟨after, hstmt, rfl⟩

mutual

/-- A statement adds variables to the innermost body at most. -/
theorem Allowed.grows : ∀ {stmt : Stmt}
    {env after : Env Data}, Allowed globals returns stmt env after → env.Grows after
  | .expression .., env, after, h | .result .., env, after, h => .of_layout (by rw [h.2])
  | .declaration .., env, after, h => by
    rw [h.2.2]
    exact ⟨_, env.layout_declare _⟩
  | .assignment .., env, after, h => by
    obtain ⟨slot, -, -, rfl⟩ := h
    exact .of_layout (Env.layout_update _ _ _)
  | .conditional condition body location, env, after, h => by
    rw [Allowed] at h
    obtain ⟨-, inner, hinner, rfl⟩ := h
    exact .of_layout hinner.grows.layout_tail
  | .function .., env, after, h => h.elim
  | .retain .., env, after, h | .release .., env, after, h =>
    .of_layout (by rw [show after = env from h])

theorem AllowedAll.grows : ∀ {block : List Stmt} {env after : Env Data},
    AllowedAll globals returns block env after → env.Grows after
  | [], env, after, h => .of_layout (by rw [show after = env from h])
  | stmt :: block, env, after, h => by
    rw [AllowedAll] at h
    obtain ⟨middle, hstmt, hblock⟩ := h
    exact hstmt.grows.trans hblock.grows

end

/-- No variable hides a name from outside of bodies. -/
def Apart (globals : String → Option Entity) (env : Env Data) : Prop :=
  ∀ slot ∈ env.flatten, globals slot.name = none

namespace Apart

section

variable (h : Apart globals env)
include h

theorem declare {slot : Slot Data} (hslot : globals slot.name = none) :
    Apart globals (env.declare slot) := by
  intro other hother
  rcases Env.mem_declare hother with rfl | hother
  · exact hslot
  · exact h other hother

theorem update (name : String) (value : Value Data) : Apart globals (env.update name value) := by
  intro slot hslot
  have hmem := mem_map_of_mem (f := (·.name)) hslot
  rw [map_flatten, Env.map_update _ fun _ _ => rfl, ← map_flatten] at hmem
  obtain ⟨other, hother, hname⟩ := mem_map.mp hmem
  exact hname ▸ h other hother

theorem push : Apart globals ([] :: env) := h

theorem tail : Apart globals env.tail := by
  cases env with
  | nil => exact h
  | cons frame =>
    exact fun slot hslot => h slot (mem_append_right frame hslot)

/-- A name from outside of bodies is the name of no variable. -/
theorem find_eq_none {name : String} (hname : (globals name).isSome) : env.find name = none := by
  cases hfind : env.find name with
  | none => rfl
  | some slot =>
    have hslot := h slot (mem_of_find?_eq_some hfind)
    have hsame : slot.name = name := by simpa using find?_some hfind
    rw [hsame] at hslot
    rw [hslot] at hname
    cases hname

end

end Apart

mutual

theorem Apart.allowed : ∀ {stmt : Stmt} {env after : Env Data}, Apart globals env →
    Allowed globals returns stmt env after → Apart globals after
  | .expression .., env, after, hapart, h => h.2 ▸ hapart
  | .declaration .., env, after, hapart, h => by
    obtain ⟨hfree, -, rfl⟩ := h
    exact hapart.declare hfree.unhidden
  | .assignment .., env, after, hapart, h => by
    obtain ⟨slot, -, -, rfl⟩ := h
    exact hapart.update _ _
  | .conditional condition body location, env, after, hapart, h => by
    rw [Allowed] at h
    obtain ⟨-, inner, hinner, rfl⟩ := h
    exact (hapart.push.allowedAll hinner).tail
  | .result .., env, after, hapart, h => h.2 ▸ hapart
  | .function .., env, after, hapart, h => h.elim
  | .retain .., env, after, hapart, h | .release .., env, after, hapart, h =>
    (show after = env from h) ▸ hapart

theorem Apart.allowedAll : ∀ {block : List Stmt} {env after : Env Data}, Apart globals env →
    AllowedAll globals returns block env after → Apart globals after
  | [], env, after, hapart, h => by
    rw [AllowedAll] at h
    exact h ▸ hapart
  | stmt :: block, env, after, hapart, h => by
    rw [AllowedAll] at h
    obtain ⟨middle, hstmt, hblock⟩ := h
    exact (hapart.allowed hstmt).allowedAll hblock

end

end Rules

/-! ### Environments as a stack shows them -/

/-- A frame with the variables of a body on the stack, declared at the same places, of which those
have values that are initialized. -/
structure FrameMirrors (returns : Option Ty) (tier : Tier) (frame : List (Slot Data)) : Prop where
  kind : tier.kind = .inner
  returns : tier.returns = returns
  lookup : ∀ name,
  (tier.table.lookup name).map (fun found => (found.entity, found.definedAt, found.initialized)) =
    (frame.find? (·.name = name)).map fun slot =>
      (.value (.named slot.type), some slot.location, decide (slot.value ≠ .unset))

/-- An environment with the variables of the bodies on the stack, around which there are the names
of the file. -/
def Mirrors (globals : String → Option Entity) (returns : Option Ty) (stack : Stack)
    (env : Env Data) : Prop :=
  match env, stack with
  | [], stack => stack.entity = globals ∧ ∀ name found kind, stack.find name = some (found, kind) →
    kind ≠ .inner ∧ found.initialized = true
  | frame :: env, tier :: outer =>
    FrameMirrors returns tier frame ∧ Mirrors globals returns outer env
  | _ :: _, [] => False
termination_by structural env

namespace Mirrors

variable {globals : String → Option Entity} {returns : Option Ty} {stack : Stack} {env : Env Data}
  {name : String} {slot : Slot Data}

section

variable (h : Mirrors globals returns stack env)
include h

/-- The variable of an environment, on the stack. -/
theorem find_of_some (hfind : env.find name = some slot) :
    ∃ found, stack.find name = some (found, .inner) ∧ found.entity = .value (.named slot.type) ∧
      found.definedAt = some slot.location ∧ (found.initialized = true ↔ slot.value ≠ .unset) := by
  induction env generalizing stack with
  | nil => cases hfind
  | cons frame env ih =>
    match stack, h with
    | tier :: outer, ⟨hframe, houter⟩ =>
      have hlookup := hframe.lookup name
      rw [Env.find_cons] at hfind
      simp only [Stack.find]
      cases hcase : frame.find? (·.name = name) with
      | some =>
        rw [hcase] at hfind hlookup
        cases hfind
        obtain ⟨found, hfound, heq⟩ := Option.map_eq_some_iff.mp hlookup
        simp only [Prod.mk.injEq] at heq
        obtain ⟨hentity, hplace, hinitialized⟩ := heq
        rw [hfound, hframe.kind]
        exact ⟨found, rfl, hentity, hplace, by rw [hinitialized, decide_eq_true_iff]⟩
      | none =>
        rw [hcase] at hfind hlookup
        rw [Option.map_eq_none_iff.mp hlookup]
        exact ih houter hfind

/-- What is no variable stands for what it stands for outside of bodies, and that has a value. -/
theorem find_of_none (hfind : env.find name = none) :
    stack.entity name = globals name ∧ ∀ found kind, stack.find name = some (found, kind) →
      kind ≠ .inner ∧ found.initialized = true := by
  induction env generalizing stack with
  | nil => exact ⟨congrFun h.1 name, h.2 name⟩
  | cons frame env ih =>
    match stack, h with
    | tier :: outer, ⟨hframe, houter⟩ =>
      have hlookup := hframe.lookup name
      rw [Env.find_cons] at hfind
      simp only [Stack.entity, Stack.find]
      cases hcase : frame.find? (·.name = name) with
      | some =>
        rw [hcase] at hfind
        cases hfind
      | none =>
        rw [hcase] at hfind hlookup
        rw [Option.map_eq_none_iff.mp hlookup]
        exact ih houter hfind

theorem entity : stack.entity = entityIn globals env := by
  funext name
  rw [entityIn]
  cases hfind : env.find name with
  | none => exact (h.find_of_none hfind).1
  | some =>
    obtain ⟨found, hfound, hentity, -⟩ := h.find_of_some hfind
    rw [Stack.entity, hfound, Option.map_some, hentity]

/-- Variables have values where those on the stack are initialized. -/
theorem ready_iff (names : List String) : Assigned env names ↔ stack.Settled names := by
  constructor
  · intro hready name hname found kind hfound
    cases hfind : env.find name with
    | none => exact ((h.find_of_none hfind).2 found kind hfound).2
    | some slot =>
      obtain ⟨other, hother, -, -, hinitialized⟩ := h.find_of_some hfind
      rw [hother] at hfound
      cases hfound
      exact hinitialized.mpr (hready name hname slot hfind)
  · intro hready name hname slot hfind
    obtain ⟨found, hfound, -, -, hinitialized⟩ := h.find_of_some hfind
    exact hinitialized.mp (hready name hname found .inner hfound)

/-- Marks other than that of a value do not matter. -/
theorem marked (name : String) {change : Variable → Variable}
    (hentity : ∀ old, (change old).entity = old.entity)
    (hplace : ∀ old, (change old).definedAt = old.definedAt)
    (hinitialized : ∀ old, (change old).initialized = old.initialized) :
    Mirrors globals returns (stack.update name change) env := by
  induction env generalizing stack with
  | nil =>
    refine ⟨?_, fun other found kind hfound => ?_⟩
    · rw [← h.1]
      exact funext fun other => stack.entity_update name other hentity
    · rw [Stack.find_update] at hfound
      split at hfound
      · obtain ⟨⟨old, kind'⟩, hold, heq⟩ := Option.map_eq_some_iff.mp hfound
        cases heq
        obtain ⟨hkind, hvalue⟩ := h.2 other old _ hold
        exact ⟨hkind, (hinitialized old).trans hvalue⟩
      · exact h.2 other found kind hfound
  | cons frame env ih =>
    match stack, h with
    | tier :: outer, ⟨hframe, houter⟩ =>
      simp only [Stack.update]
      cases hlookup : tier.table.lookup name with
      | none => exact ⟨hframe, ih houter⟩
      | some =>
        refine ⟨⟨hframe.kind, hframe.returns, fun other => ?_⟩, houter⟩
        simp only [Table.lookup_adjust]
        rw [← hframe.lookup other]
        split
        · rw [Option.map_map]
          refine congrArg (Option.map · _) (funext fun old => ?_)
          simp only [Function.comp_apply, hentity, hplace, hinitialized]
        · rfl

theorem read (names : List String) : Mirrors globals returns (stack.read names) env := by
  induction names generalizing stack with
  | nil => exact h
  | cons name names ih =>
    rw [Stack.read_cons]
    exact ih (h.marked name (fun _ => rfl) (fun _ => rfl) fun _ => rfl)

/-- A variable gets a value. -/
theorem initialized (hfind : env.find name = some slot) :
    Mirrors globals returns (stack.update name fun old => { old with initialized := true })
      (env.update name filled) := by
  induction env generalizing stack with
  | nil => cases hfind
  | cons frame env ih =>
    match stack, h with
    | tier :: outer, ⟨hframe, houter⟩ =>
      have hlookup := hframe.lookup name
      rw [Env.find_cons] at hfind
      simp only [Stack.update, Env.update]
      cases hcase : frame.find? (·.name = name) with
      | some first =>
        have hany : frame.any (·.name = name) = true :=
          any_eq_true.mpr ⟨first, mem_of_find?_eq_some hcase, by simpa using find?_some hcase⟩
        rw [hcase] at hlookup
        obtain ⟨found, hfound, -⟩ := Option.map_eq_some_iff.mp hlookup
        rw [hfound, if_pos hany]
        refine ⟨⟨hframe.kind, hframe.returns, fun other => ?_⟩, houter⟩
        simp only [Table.lookup_adjust, Env.find?_updateFrame]
        have hother := hframe.lookup other
        by_cases hname : other = name
        · subst hname
          rw [hcase, hfound] at hother
          simp only [Option.map_some, Option.some.injEq, Prod.mk.injEq] at hother
          simp [hcase, hfound, hother.1, hother.2.1, filled]
        · simp only [if_neg hname]
          exact hother
      | none =>
        rw [hcase] at hlookup hfind
        have hany : frame.any (·.name = name) = false := by
          simpa using find?_eq_none.mp hcase
        rw [Option.map_eq_none_iff.mp hlookup, hany, if_neg Bool.false_ne_true]
        exact ⟨hframe, ih houter hfind⟩

theorem declare (henv : env ≠ []) (name type : String) (location : Location) (used : Bool) :
    Mirrors globals returns (stack.declared name ⟨.value (.named type), some location, false, used⟩)
      (env.declare { name, type, location }) := by
  cases env with
  | nil => exact absurd rfl henv
  | cons =>
    match stack, h with
    | tier :: outer, ⟨hframe, houter⟩ =>
      refine ⟨⟨hframe.kind, hframe.returns, fun other => ?_⟩, houter⟩
      simp only [Table.lookup_insert, find?_cons]
      by_cases hother : other = name
      · subst hother
        simp
      · have hne : ¬name = other := fun heq => hother heq.symm
        simp only [hother, hne, if_false, decide_false]
        exact hframe.lookup other

/-- What is kept of a body does not matter. -/
theorem emitted (henv : env ≠ []) (stmt : Stmt) :
    Mirrors globals returns (stack.emitted stmt) env := by
  cases env with
  | nil => exact absurd rfl henv
  | cons =>
    match stack, h with
    | tier :: outer, ⟨hframe, houter⟩ =>
      exact ⟨⟨hframe.kind, hframe.returns, hframe.lookup⟩, houter⟩

theorem push (henv : env ≠ []) : Mirrors globals returns stack.push ([] :: env) := by
  cases env with
  | nil => exact absurd rfl henv
  | cons =>
    match stack, h with
    | tier :: outer, ⟨hframe, houter⟩ =>
      refine ⟨⟨?_, hframe.returns, fun _ => rfl⟩, hframe, houter⟩
      rw [hframe.kind]
      rfl

theorem tail (henv : env ≠ []) : Mirrors globals returns stack.tail env.tail := by
  cases env with
  | nil => exact absurd rfl henv
  | cons =>
    match stack, h with
    | tier :: outer, ⟨_, houter⟩ => exact houter

theorem returns_eq (henv : env ≠ []) : stack.returns = returns := by
  cases env with
  | nil => exact absurd rfl henv
  | cons =>
    match stack, h with
    | tier :: outer, ⟨hframe, _⟩ => exact hframe.returns

/-- A name is free where a check takes it to be. -/
theorem free_iff (henv : env ≠ []) (hapart : Apart globals env)
    (name : String) : Free globals env name ↔ stack.clash name = none := by
  cases env with
  | nil => exact absurd rfl henv
  | cons frame env =>
    match stack, h with
    | tier :: outer, ⟨hframe, houter⟩ =>
      have hlookup := hframe.lookup name
      have hnew : (∀ slot ∈ frame, slot.name ≠ name) ↔ tier.table.lookup name = none := by
        rw [← Option.map_eq_none_iff
          (f := fun found : Variable => (found.entity, found.definedAt, found.initialized)),
          hlookup, Option.map_eq_none_iff, find?_eq_none]
        simp
      -- variables of bodies further out may be hidden, names of the file may not
      constructor
      · rintro ⟨hframes, hglobal⟩
        simp only [Stack.clash, hnew.mp hframes]
        cases hfind : Env.find env name with
        | some =>
          obtain ⟨found, hfound, -⟩ := houter.find_of_some hfind
          simp [hfound]
        | none =>
          have hentity := (houter.find_of_none hfind).1
          rw [hglobal, Stack.entity, Option.map_eq_none_iff] at hentity
          simp [hentity]
      · intro hclash
        have hnone := Stack.lookup_eq_none_of_clash hclash
        refine ⟨hnew.mpr hnone, ?_⟩
        simp only [Stack.clash, hnone] at hclash
        cases hfind : Env.find env name with
        | some slot =>
          have hslot := hapart slot (mem_append_right frame (mem_of_find?_eq_some hfind))
          have hsame : slot.name = name := by simpa using find?_some hfind
          exact hsame ▸ hslot
        | none =>
          obtain ⟨hentity, hkind⟩ := houter.find_of_none hfind
          rw [← hentity, Stack.entity, Option.map_eq_none_iff]
          cases hfound : Stack.find outer name with
          | none => rfl
          | some found =>
            obtain ⟨found, kind⟩ := found
            rw [hfound] at hclash
            simp [(hkind found kind hfound).1] at hclash

end

end Mirrors

/-! ### A check succeeds exactly on what is allowed -/

section Checked

variable {globals : String → Option Entity} {returns : Option Ty} {env : Env Data}
  {expression : Expr}

theorem Mirrors.usable_iff {stack : Stack} (h : Mirrors globals returns stack env)
    {entity : Option Entity} :
    Usable globals env expression entity ↔ Inferable stack expression entity :=
  ⟨fun husable => ⟨h.entity ▸ husable.stands, (h.ready_iff expression.names).mp husable.ready⟩,
    fun hinfer => ⟨h.entity ▸ hinfer.stands, (h.ready_iff expression.names).mpr hinfer.settled⟩⟩

theorem Env.ne_nil_of_length {after : Env Data} (henv : env ≠ [])
    (hlength : after.length = env.length) :
    after ≠ [] := by
  rw [← length_pos_iff, hlength, length_pos_iff]
  exact henv

/-- A check and the rules come to the same: what can be checked is allowed, what is allowed can be
checked, and the environment that the rules leave is the one that the check shows. -/
structure Agree (globals : String → Option Entity) (returns : Option Ty) (run : Direct.State → Prop)
    (rule : Env Data → Prop) : Prop where
  allowed : ∀ {final}, run final → ∃ after, rule after ∧ Mirrors globals returns final.stack after
  checked : ∀ {after}, rule after → ∃ final, run final ∧ Mirrors globals returns final.stack after

mutual

/-- **A statement can be checked exactly if it is allowed.** -/
theorem agree_execute
    (htypes : ∀ name type, globals name = some (.type type) → type = .named name) :
    ∀ {stmt : Stmt} {state : Direct.State}
      {env : Env Data}, Mirrors globals returns state.stack env → env ≠ [] →
    Apart globals env →
    Agree globals returns (execute stmt state = .ok () ·) (Allowed globals returns stmt env)
  | .expression value location, state, env, hmirrors, henv, hapart => by
    have hread := (hmirrors.read value.names).emitted henv (.expression value location)
    refine ⟨fun h => ?_, ?_⟩
    · obtain ⟨⟨entity, hinfer⟩, hcase⟩ := execute_eq_ok_iff.mp h
      refine ⟨env, ⟨⟨entity, hmirrors.usable_iff.mpr hinfer⟩, rfl⟩, ?_⟩
      rcases hcase with ⟨-, rfl⟩ | ⟨-, rfl⟩
      · exact hread
      · exact hmirrors
    · rintro _ ⟨⟨entity, husable⟩, rfl⟩
      have hinfer := hmirrors.usable_iff.mp husable
      cases hcall : value.isCall with
      | true => exact ⟨_, execute_eq_ok_iff.mpr ⟨⟨entity, hinfer⟩, .inl ⟨hcall, rfl⟩⟩, hread⟩
      | false => exact ⟨_, execute_eq_ok_iff.mpr ⟨⟨entity, hinfer⟩, .inr ⟨hcall, rfl⟩⟩, hmirrors⟩
  | .declaration type name location, state, env, hmirrors, henv, hapart => by
    have hafter := (hmirrors.declare henv name type.text location false).emitted
      (Env.ne_nil_of_length henv (Env.length_declare env _)) (.declaration type name location)
    have hfree := hmirrors.free_iff henv hapart name
    refine ⟨fun h => ?_, ?_⟩
    · obtain ⟨hclash, found, ⟨hentity, -⟩, rfl⟩ := execute_eq_ok_iff.mp h
      rw [hmirrors.entity] at hentity
      cases htypes _ _ (entityIn_type.mp hentity).2
      exact ⟨_, ⟨hfree.mpr hclash, hentity, rfl⟩, hafter⟩
    · rintro _ ⟨hnew, htype, rfl⟩
      have hsettled : state.stack.Settled [type.text] := by
        refine (hmirrors.ready_iff [type.text]).mp fun other hother slot hfind => ?_
        rw [mem_singleton.mp hother, (entityIn_type.mp htype).1] at hfind
        cases hfind
      rw [← hmirrors.entity] at htype
      exact ⟨_, execute_eq_ok_iff.mpr ⟨hfree.mp hnew, _, ⟨htype, hsettled⟩, rfl⟩, hafter⟩
  | .assignment target value location, state, env, hmirrors, henv, hapart => by
    have hafter {slot : Slot Data} (hfind : env.find target.text = some slot) :=
      ((hmirrors.read value.names).initialized hfind).emitted
        (Env.ne_nil_of_length henv (Env.length_update env _ _)) (.assignment target value location)
    refine ⟨fun h => ?_, ?_⟩
    · obtain ⟨found, hfound, hinfer, rfl⟩ := execute_eq_ok_iff.mp h
      cases hfind : env.find target.text with
      | none => exact absurd rfl ((hmirrors.find_of_none hfind).2 found .inner hfound).1
      | some slot =>
        obtain ⟨other, hother, hentity, -⟩ := hmirrors.find_of_some hfind
        rw [hfound] at hother
        cases hother
        rw [hentity] at hinfer
        exact ⟨_, ⟨slot, hfind, hmirrors.usable_iff.mpr hinfer, rfl⟩, hafter hfind⟩
    · rintro _ ⟨slot, hfind, husable, rfl⟩
      obtain ⟨found, hfound, hentity, -⟩ := hmirrors.find_of_some hfind
      have hinfer := hmirrors.usable_iff.mp husable
      rw [← hentity] at hinfer
      exact ⟨_, execute_eq_ok_iff.mpr ⟨found, hfound, hinfer, rfl⟩, hafter hfind⟩
  | .conditional condition body location, state, env, hmirrors, henv, hapart => by
    have hbody : Agree globals returns
        (executeAll body { state with stack := (state.stack.read condition.names).push } = .ok () ·)
        (AllowedAll globals returns body ([] :: env)) :=
      agree_executeAll htypes ((hmirrors.read condition.names).push henv)
        (cons_ne_nil _ _) hapart.push
    -- the body grows its own frame only, and that is gone after it
    have hafter {inner : Direct.State} {after : Env Data}
        (hallowed : AllowedAll globals returns body ([] :: env) after)
        (hinner : Mirrors globals returns inner.stack after) :=
      have hlength := hallowed.grows.length_eq
      (hinner.tail (Env.ne_nil_of_length (cons_ne_nil _ _) hlength)).emitted
        (Env.ne_nil_of_length henv (by rw [length_tail, hlength]; rfl))
        (.conditional condition (inner.stack.headD default).pruned location)
    refine ⟨fun h => ?_, fun h => ?_⟩
    · obtain ⟨hinfer, inner, hrun, rfl⟩ := execute_eq_ok_iff.mp h
      obtain ⟨after, hallowed, hinner⟩ := hbody.allowed hrun
      refine ⟨after.tail, ?_, hafter hallowed hinner⟩
      rw [Allowed]
      exact ⟨hmirrors.usable_iff.mpr hinfer, after, hallowed, rfl⟩
    · rw [Allowed] at h
      obtain ⟨husable, inner, hallowed, rfl⟩ := h
      obtain ⟨final, hrun, hinner⟩ := hbody.checked hallowed
      exact ⟨_, execute_eq_ok_iff.mpr ⟨hmirrors.usable_iff.mp husable, final, hrun, rfl⟩,
        hafter hallowed hinner⟩
  | .result value location, state, env, hmirrors, henv, hapart => by
    have hread := (hmirrors.read value.names).emitted henv (.result value location)
    refine ⟨fun h => ?_, ?_⟩
    · obtain ⟨expected, hreturns, hinfer, rfl⟩ := execute_eq_ok_iff.mp h
      rw [hmirrors.returns_eq henv] at hreturns
      exact ⟨env, ⟨⟨expected, hreturns, hmirrors.usable_iff.mpr hinfer⟩, rfl⟩, hread⟩
    · rintro _ ⟨⟨expected, hreturns, husable⟩, rfl⟩
      rw [← hmirrors.returns_eq henv] at hreturns
      exact ⟨_, execute_eq_ok_iff.mpr ⟨expected, hreturns, hmirrors.usable_iff.mp husable, rfl⟩,
        hread⟩
  | .function .., _, _, _, _, _ => ⟨fun h => (execute_eq_ok_iff.mp h).elim, False.elim⟩
  | .retain name location, state, env, hmirrors, henv, hapart
  | .release name location, state, env, hmirrors, henv, hapart => by
    refine ⟨fun h => ?_, ?_⟩
    · cases execute_eq_ok_iff.mp h
      exact ⟨env, rfl, hmirrors.emitted henv _⟩
    · rintro _ rfl
      exact ⟨_, execute_eq_ok_iff.mpr rfl, hmirrors.emitted henv _⟩

theorem agree_executeAll
    (htypes : ∀ name type, globals name = some (.type type) → type = .named name) :
    ∀ {block : List Stmt} {state : Direct.State}
      {env : Env Data}, Mirrors globals returns state.stack env → env ≠ [] →
    Apart globals env →
    Agree globals returns (executeAll block state = .ok () ·) (AllowedAll globals returns block env)
  | [], state, env, hmirrors, henv, hapart => by
    refine ⟨fun h => ?_, fun h => ?_⟩
    · rw [executeAll] at h
      cases h
      exact ⟨env, by rw [AllowedAll], hmirrors⟩
    · rw [AllowedAll] at h
      exact ⟨state, by rw [executeAll]; rfl, h ▸ hmirrors⟩
  | stmt :: block, state, env, hmirrors, henv, hapart => by
    have hstmt : Agree globals returns (execute stmt state = .ok () ·)
        (Allowed globals returns stmt env) :=
      agree_execute htypes hmirrors henv hapart
    have hblock {middle : Direct.State} {next : Env Data}
        (hallowed : Allowed globals returns stmt env next)
        (hnext : Mirrors globals returns middle.stack next) :
        Agree globals returns (executeAll block middle = .ok () ·) (AllowedAll globals returns
          block next) :=
      agree_executeAll htypes hnext (Env.ne_nil_of_length henv hallowed.grows.length_eq)
        (hapart.allowed hallowed)
    refine ⟨fun h => ?_, fun h => ?_⟩
    · obtain ⟨middle, hfirst, hrest⟩ := executeAll_cons_eq_ok_iff.mp h
      obtain ⟨next, hallowed, hnext⟩ := hstmt.allowed hfirst
      obtain ⟨after, hafter, hfinal⟩ := (hblock hallowed hnext).allowed hrest
      refine ⟨after, ?_, hfinal⟩
      rw [AllowedAll]
      exact ⟨next, hallowed, hafter⟩
    · rw [AllowedAll] at h
      obtain ⟨next, hallowed, hafter⟩ := h
      obtain ⟨middle, hfirst, hnext⟩ := hstmt.checked hallowed
      obtain ⟨final, hrest, hfinal⟩ := (hblock hallowed hnext).checked hafter
      exact ⟨final, executeAll_cons_eq_ok_iff.mpr ⟨middle, hfirst, hrest⟩, hfinal⟩

end

end Checked

end Execution

end FrontEnd
