import FrontEnd.Proofs.Refcount.Kept

/-!
# The types that lowering finds

Lowering asks for the types of values where it may need a temporary, and finds them in its own way:
variables in the bodies that are open, with temporaries among them, and functions in one table for
the whole program. A check looks names up in a chain of scopes, where the variables are that get
removed afterwards. The two come to the same (`lowering_types_agree`).

Both walk through the body of a function, a check through what is written there (`Check.Reaches`)
and lowering through what is left of it (`Lower.Reaches`). The two walks go hand in hand: where
nothing is left of a statement lowering waits, and else it takes a step when the check takes one
(`Lower.Follows`). At each pair of positions, the variables of the check are those that the rules
speak of, without the spare ones they are those of lowering, and none of them has a name from
outside of bodies (`InStep`). One step of the check and one of lowering keep this up, and it is all
that it takes for them to agree (`TypesAgree`).
-/

namespace FrontEnd

open Refcount Execution List
open FunctionDef (toStmt)

/-- The parts of an expression that have a value of their own: all of it, and the parts of the
arguments of a call. -/
inductive Expr.Within (part : Expr) : Expr → Prop
  | self : Within part part
  | argument {argument function : Expr} {arguments : List Expr} {location : Location}
    (hmem : argument ∈ arguments) (h : Within part argument) :
    Within part (.call function arguments location)

namespace Stmt

/-- The value that a statement needs, apart from those in a body of its own. -/
def value? : Stmt → Option Expr
  | .expression value _ | .assignment _ value _ | .conditional value _ _ | .result value _ =>
    some value
  | .declaration .. | .function .. | .retain .. | .release .. => none

/-- The name that a statement gives a value to. -/
def target? : Stmt → Option String
  | .assignment target _ _ => some target.text
  | _ => none

/-- **What a statement becomes** without spare variables, if anything of it is left. -/
def Becomes (spare : String → Bool) : Stmt → Stmt → Prop
  | .expression value location, kept => value.isCall = true ∧ kept = .expression value location
  | .assignment target value location, kept =>
    kept = .expression value (value.location.ofBareCall location) ∨
    kept = .assignment target value location ∧ spare target.text = false
  | .conditional condition body location, kept =>
    kept = .conditional condition (removeSpare spare body) location
  | .function name parameters returnType body location, kept =>
    kept = .function name parameters returnType (removeSpare (fun _ => false) body) location
  | stmt, kept => kept = stmt

theorem becomes (spare : String → Bool) (rest : List Stmt) (stmt : Stmt) :
    stmt.withoutSpare spare rest = [] ∨
      ∃ kept, stmt.withoutSpare spare rest = [kept] ∧ stmt.Becomes spare kept := by
  cases stmt with
  | expression | declaration | assignment =>
    grind [Stmt.withoutSpare, Stmt.ofSpareValue_eq, Stmt.ofBareValue, Stmt.Becomes]
  | conditional | function => exact .inr ⟨_, by rw [Stmt.withoutSpare], rfl⟩
  | result | retain | release => exact .inr ⟨_, rfl, rfl⟩

end Stmt

/-- The statements that the check of a body comes to, and what is known there. -/
inductive Check.Reaches : List Stmt → Checking → Stmt → Checking → Prop
  | here {stmt : Stmt} {block : List Stmt} {checking : Checking} :
    Reaches (stmt :: block) checking stmt checking
  | behind {stmt found : Stmt} {block : List Stmt} {checking middle last : Checking}
    (h : Check.execute stmt checking = .ok () middle) (more : Reaches block middle found last) :
    Reaches (stmt :: block) checking found last
  | inside {condition : Expr} {body block : List Stmt} {location : Location} {found : Stmt}
    {checking middle last : Checking} (h : Check.condition condition checking = .ok () middle)
    (more : Reaches body { middle with scope := middle.scope.child } found last) :
    Reaches (.conditional condition body location :: block) checking found last

/-- The statements that lowering a body comes to behind `previous`, and what is known there. -/
inductive Refcount.Lower.Reaches : Option Stmt → List Stmt → Lowering → Stmt → Lowering → Prop
  | here {previous : Option Stmt} {stmt : Stmt} {block : List Stmt} {state : Lowering} :
    Reaches previous (stmt :: block) state stmt state
  | behind {previous : Option Stmt} {stmt found : Stmt} {block : List Stmt} {state last : Lowering}
    (more : Reaches (some stmt) block (Lower.statement previous stmt state).2 found last) :
    Reaches previous (stmt :: block) state found last
  | inside {previous : Option Stmt} {condition : Expr} {body block : List Stmt}
    {location : Location} {found : Stmt} {state last : Lowering}
    (more : Reaches none body (Lower.opened condition state) found last) :
    Reaches previous (.conditional condition body location :: block) state found last

/-- **The two walks hand in hand**: a check through a block, and lowering through what is left of it
without the variables that are `spare`, behind `previous`. The check comes to `source` and knows
`reached` there; at the same position lowering comes to `found`, which is what is left of `source`,
and knows `last`. -/
inductive Refcount.Lower.Follows (source : Stmt) (reached : Checking) (found : Stmt)
    (last : Lowering) : (String → Bool) → List Stmt → Checking → Option Stmt → Lowering → Prop
  | here {spare : String → Bool} {rest : List Stmt} {previous : Option Stmt}
    (hkept : source.withoutSpare spare rest = [found]) :
    Follows source reached found last spare (source :: rest) reached previous last
  | removed {spare : String → Bool} {stmt : Stmt} {rest : List Stmt} {checking middle : Checking}
    {previous : Option Stmt} {state : Lowering} (hkept : stmt.withoutSpare spare rest = [])
    (h : Check.execute stmt checking = .ok () middle)
    (more : Follows source reached found last (spareBehind spare rest stmt) rest middle previous
      state) :
    Follows source reached found last spare (stmt :: rest) checking previous state
  | behind {spare : String → Bool} {stmt kept : Stmt} {rest : List Stmt}
    {checking middle : Checking} {previous : Option Stmt} {state : Lowering}
    (hkept : stmt.withoutSpare spare rest = [kept])
    (h : Check.execute stmt checking = .ok () middle)
    (more : Follows source reached found last (spareBehind spare rest stmt) rest middle (some kept)
      (Lower.statement previous kept state).2) :
    Follows source reached found last spare (stmt :: rest) checking previous state
  | inside {spare : String → Bool} {condition : Expr} {body rest : List Stmt} {location : Location}
    {checking middle : Checking} {previous : Option Stmt} {state : Lowering}
    (h : Check.condition condition checking = .ok () middle)
    (more : Follows source reached found last spare body
      { middle with scope := middle.scope.child } none (Lower.opened condition state)) :
    Follows source reached found last spare (.conditional condition body location :: rest) checking
      previous state

/-! ### The two walks -/

section Follows

open Direct (bind_eq_ok_iff)

variable {source found : Stmt} {block : List Stmt} {checking middle last reached : Checking}
  {state final : Lowering} {spare : String → Bool} {previous : Option Stmt}

theorem Check.executeAll_cons {stmt : Stmt}
    (h : Check.executeAll (stmt :: block) checking = .ok () last) :
    ∃ middle, Check.execute stmt checking = .ok () middle ∧
      Check.executeAll block middle = .ok () last := by
  rw [Check.executeAll] at h
  obtain ⟨_, middle, hfirst, hrest⟩ := bind_eq_ok_iff.mp h
  exact ⟨middle, hfirst, hrest⟩

theorem Check.execute_conditional {condition : Expr} {body : List Stmt} {location : Location}
    (h : Check.execute (.conditional condition body location) checking = .ok () middle) :
    ∃ inner last, Check.condition condition checking = .ok () inner ∧
      Check.executeAll body { inner with scope := inner.scope.child } = .ok () last := by
  rw [Check.execute] at h
  obtain ⟨_, inner, hcondition, hrest⟩ := bind_eq_ok_iff.mp h
  obtain ⟨level, _, hchild, -⟩ := bind_eq_ok_iff.mp hrest
  rw [Check.inChild] at hchild
  split at hchild
  · next last hlast => exact ⟨inner, last, hcondition, hlast⟩
  · cases hchild

/-- One half of the two walks is a walk of the check. -/
theorem Refcount.Lower.Follows.check_reaches
    (h : Lower.Follows source reached found final spare block checking previous state) :
    Check.Reaches block checking source reached := by
  induction h with
  | here => exact .here
  | removed _ h _ ih | behind _ h _ ih => exact .behind h ih
  | inside h _ ih => exact .inside h ih

/-- The other half is a walk of lowering. -/
theorem Refcount.Lower.Follows.lower_reaches
    (h : Lower.Follows source reached found final spare block checking previous state) :
    Lower.Reaches previous (removeSpare spare block) state found final := by
  induction h with
  | here hkept =>
    rw [removeSpare, hkept]
    exact .here
  | removed hkept => rwa [removeSpare, hkept]
  | behind hkept _ _ ih =>
    rw [removeSpare, hkept]
    exact .behind ih
  | inside _ _ ih =>
    rw [removeSpare, Stmt.withoutSpare]
    exact .inside ih

/-- **Where lowering comes to a statement, the check has come to what it is left of.** -/
theorem Refcount.Lower.Reaches.exists_follows
    (hcheck : Check.executeAll block checking = .ok () last)
    (h : Lower.Reaches previous (removeSpare spare block) state found final) :
    ∃ source reached,
      Lower.Follows source reached found final spare block checking previous state := by
  induction hsize : sizeOf block using Nat.strongRecOn
    generalizing block spare checking last previous state with
  | ind size ih =>
    cases block with
    | nil => cases h
    | cons stmt rest =>
      have hless : sizeOf rest < size := by
        rw [← hsize, cons.sizeOf_spec]
        omega
      obtain ⟨middle, hfirst, hrest⟩ := Check.executeAll_cons hcheck
      rw [removeSpare] at h
      rcases stmt.becomes spare rest with hkept | ⟨kept, hkept, hbecomes⟩
      · rw [hkept] at h
        obtain ⟨source, reached, hmore⟩ := ih _ hless hrest h rfl
        exact ⟨source, reached, .removed hkept hfirst hmore⟩
      · rw [hkept] at h
        cases h with
        | here => exact ⟨stmt, checking, .here hkept⟩
        | behind more =>
          obtain ⟨source, reached, hmore⟩ := ih _ hless hrest more rfl
          exact ⟨source, reached, .behind hkept hfirst hmore⟩
        | @inside _ condition inner _ location _ _ _ more =>
          obtain ⟨body, rfl, rfl⟩ : ∃ body, stmt = .conditional condition body location ∧
              inner = removeSpare spare body := by
            cases stmt <;> grind [Stmt.Becomes]
          obtain ⟨inner, _, hcondition, hbody⟩ := Check.execute_conditional hfirst
          have hlessBody : sizeOf body < size := by
            rw [← hsize, cons.sizeOf_spec, Stmt.conditional.sizeOf_spec]
            omega
          obtain ⟨source, reached, hmore⟩ := ih _ hlessBody hbody more rfl
          exact ⟨source, reached, .inside hcondition hmore⟩

end Follows

/-- The start of a check of a function: the type it has to return, and its parameters. -/
def Check.enter (signature : Signature) (function : FunctionDef) : Check Unit := do
  modifyScope (·.modifyOwn fun level => { level with returns := signature.returns })
  declareParameters function.parameters signature.parameters

/-- What a check and lowering both tell about a statement. -/
structure TypesAgree (functions : List FunctionDef) (scope : Scope) (stmt : Stmt)
    (state : Lowering) : Prop where
  /-- The type of a value. Lowering asks for it when the values inside are in temporaries, and maybe
  others before. -/
  types : ∀ {value part}, stmt.value? = some value → part.Within value →
    (∀ name, part ≠ .name name) →
    ∀ {before}, state.Later before → ∃ after, Infer.infer part scope =
      .ok (((Lower.hoist part before).2.typeOf (Lower.hoist part before).1.1).map fun type =>
        .value (.named type)) after
  /-- What is called is a function of the file, or a built-in one, by its name. -/
  callees : ∀ {value function arguments location}, stmt.value? = some value →
    Expr.Within (.call function arguments location) value → ∃ name, function = .name name ∧
      (name.text ∈ functions.map (·.name) ∨ name.text = "print" ∨ name.text = "input")
  /-- The variable that a name stands for. -/
  bindings : ∀ name, (∃ value, stmt.value? = some value ∧ name ∈ value.names) ∨
    stmt.target? = some name →
    (state.frames.lookup name).map (fun v => (Entity.value (.named v.type), some v.location)) =
      ((scope.lookup name).filter (·.kind = .inner)).map fun binding =>
      (binding.found.entity, binding.found.definedAt)
  /-- A variable is new to the file. -/
  declared : ∀ {type name location}, stmt = .declaration type name location →
    (Scope.file functions).lookup name = none

namespace Execution

open Direct (Stands Stack Tier bind_eq_ok_iff)
open Ordered (projects_lift)

variable {functions : List FunctionDef} {returns : Option Ty} {types : ReturnTypes}
  {own : List String} {marks : List (List (String × Bool))} {env env' lowered after : Env Data}
  {stmt kept : Stmt} {block rest : List Stmt} {checking middle last : Checking} {state : Lowering}
  {value part : Expr} {entity : Option Entity} {scope : Scope}

/-! ### Values and names -/

section Values

variable {globals : String → Option Entity} {spare : String → Bool} {name : String}

/-- Parts of what can be used can be used. -/
theorem Usable.within (hwithin : part.Within value) (h : Usable globals env value entity) :
    ∃ entity, Usable globals env part entity := by
  induction hwithin generalizing entity with
  | self => exact ⟨entity, h⟩
  | @argument argument function arguments location hmem _ ih =>
    obtain ⟨hstands, hready⟩ := h
    rw [Stands] at hstands
    obtain ⟨callee, signature, values, -, -, hall, -, -⟩ := hstands
    have husable : UsableAll globals env arguments values :=
      ⟨hall, fun name hname => hready name (mem_append_right _ hname)⟩
    clear hall hready
    induction arguments generalizing values with
    | nil => cases hmem
    | cons first arguments ihrest =>
      obtain ⟨entity, values, rfl, hfirst, hrest⟩ := usableAll_cons.mp husable
      rcases mem_cons.mp hmem with rfl | hmem
      · exact ih hfirst
      · exact ihrest hmem _ hrest

/-- What is left of a statement needs the value that the statement needed, and something reads the
variables in it. -/
theorem Allowed.usable_of_becomes (h : Allowed globals returns stmt env after)
    (hkept : stmt.Becomes spare kept) (hvalue : kept.value? = some value) :
    (∃ entity, Usable globals env value entity) ∧ ∀ name ∈ value.names, stmt.uses name = true := by
  cases stmt with
  | expression =>
    obtain ⟨hcall, rfl⟩ := hkept
    cases hvalue
    exact ⟨h.1, fun name hname => by rw [Stmt.uses, hcall, contains_iff_mem.mpr hname]; rfl⟩
  | assignment =>
    obtain ⟨slot, -, husable, -⟩ := h
    rcases hkept with rfl | ⟨rfl, -⟩ <;> cases hvalue <;>
      exact ⟨⟨_, husable⟩, fun name hname => contains_iff_mem.mpr hname⟩
  | conditional =>
    cases hkept
    cases hvalue
    exact ⟨⟨_, h.1⟩, fun name hname => by rw [Stmt.uses, contains_iff_mem.mpr hname]; rfl⟩
  | result =>
    obtain ⟨⟨expected, -, husable⟩, -⟩ := h
    cases hkept
    cases hvalue
    exact ⟨⟨_, husable⟩, fun name hname => contains_iff_mem.mpr hname⟩
  | declaration | retain | release =>
    cases hkept
    cases hvalue
  | function => exact h.elim

theorem infer_of_usable (hbody : checking.scope.InBody)
    (hmirrors : Mirrors globals returns checking.scope.settled env)
    (h : Usable globals env value entity) :
    ∃ after, Infer.infer value checking.scope = .ok entity after := by
  have hdirect : Direct.infer value ⟨checking.scope.settled, checking.warnings⟩ = .ok entity _ :=
    (Direct.infer_eq_ok_iff value).mpr ⟨hmirrors.usable_iff.mp h, rfl⟩
  obtain ⟨after, hafter, -⟩ := (Ordered.simulates_infer value).of_ok (projects_lift _) hbody hdirect
  rw [Check.infer] at hafter
  split at hafter
  · next found scope hinfer =>
    cases hafter
    exact ⟨scope, hinfer⟩
  · cases hafter

/-- Where the environment has a variable, the check finds it, and otherwise it finds none in a
body. -/
theorem lookup_of_mirrors (hbody : scope.InBody)
    (hmirrors : Mirrors globals returns scope.settled env)
    (name : String) :
    (Env.find env name).map (fun slot => (Entity.value (.named slot.type), some slot.location)) =
      ((scope.lookup name).filter (·.kind = .inner)).map fun binding =>
        (binding.found.entity, binding.found.definedAt) := by
  cases hlookup : scope.lookup name with
  | none =>
    cases hfind : Env.find env name with
    | none => rfl
    | some =>
      obtain ⟨found, hfound, -⟩ := hmirrors.find_of_some hfind
      cases (Ordered.find_settled_of_none hbody.nested hlookup).symm.trans hfound
  | some binding =>
    obtain ⟨other, hother, hentity, hplace, -⟩ := Ordered.find_settled_of_some hbody.nested hlookup
    rw [Option.filter_some]
    cases hfind : Env.find env name with
    | none =>
      rw [if_neg (by simpa using ((hmirrors.find_of_none hfind).2 other binding.kind hother).1)]
      rfl
    | some =>
      obtain ⟨found, hfound, hentity', hplace', -⟩ := hmirrors.find_of_some hfind
      obtain ⟨rfl, hkind⟩ := Prod.mk.inj (Option.some.inj (hother.symm.trans hfound))
      rw [if_pos (decide_eq_true hkind), Option.map_some, Option.map_some, ← hentity, ← hplace,
        hentity', hplace']

theorem lookup_file_of_find (h : (Stack.ofScope (Scope.file functions)).find name = none) :
    (Scope.file functions).lookup name = none := by
  rwa [Stack.find_ofScope, Option.map_eq_none_iff] at h

end Values

/-! ### One statement -/

/-- A check in front of a block, and lowering in front of what is left of it: the variables of the
check, those without the spare ones, and those with temporaries more. -/
structure InStep (functions : List FunctionDef) (returns : Option Ty) (types : ReturnTypes)
    (own : List String) (marks : List (List (String × Bool))) (block : List Stmt) (scope : Scope)
    (state : Lowering) (env env' lowered : Env Data) : Prop where
  inBody : scope.InBody
  mirrors : Mirrors (globals functions) returns scope.settled env
  nonempty : env ≠ []
  apart : Apart (globals functions) env
  lacks : Lacks marks env env'
  unused : ∀ name, isSpare marks name = true → usesFree name block = false
  names : Stmt.namesOfAll (removeSpare (isSpare marks) block) ⊆ own
  tracks : Tracks own state env' lowered
  unhidden : Apart (globals functions) lowered
  returnTypes : state.returnTypes = types
  frames : state.frames ≠ []

theorem namesOfAll_append (front : List Stmt) :
    Stmt.namesOfAll (front ++ block) = Stmt.namesOfAll front ++ Stmt.namesOfAll block := by
  induction front with
  | nil => rfl
  | cons stmt front ih => rw [cons_append, Stmt.namesOfAll, ih, Stmt.namesOfAll, append_assoc]

namespace InStep

variable (hknown : Known (globals functions) types own)
include hknown

/-- **A check and lowering agree where they are in step.** -/
theorem agrees
    (h : InStep functions returns types own marks (stmt :: rest) checking.scope state
      env env' lowered)
    (hallowed : Allowed (globals functions) returns stmt env after)
    (hkept : stmt.withoutSpare (isSpare marks) rest = [kept])
    (hbecomes : stmt.Becomes (isSpare marks) kept) :
    TypesAgree functions checking.scope kept state where
  types hvalue hwithin hname before hlater := by
    obtain ⟨⟨entity, husable⟩, -⟩ := hallowed.usable_of_becomes hbecomes hvalue
    obtain ⟨entity, husable⟩ := husable.within hwithin
    rw [Lower.typeOf_hoist hname, hlater.returnTypes, h.returnTypes,
      ← hknown.entity_eq hname husable.stands]
    exact infer_of_usable h.inBody h.mirrors husable
  callees hvalue hwithin := by
    obtain ⟨⟨entity, husable⟩, -⟩ := hallowed.usable_of_becomes hbecomes hvalue
    obtain ⟨entity, hstands, -⟩ := husable.within hwithin
    rw [Stands] at hstands
    obtain ⟨callee, signature, -, hcallee, hsignature, -⟩ := hstands
    obtain ⟨name, rfl, -, hglobal⟩ := callee_of_stands basic_of_globals hcallee hsignature
    refine ⟨name, rfl, ?_⟩
    -- neither a type nor a truth value has a signature
    rcases globals_cases hglobal with ⟨function, hfind, -⟩ | ⟨-, heq⟩ | ⟨-, heq⟩
      | ⟨hname, -⟩ | ⟨hname, -⟩
    · have hname : function.name = name.text := by simpa using find?_some hfind
      exact .inl (hname ▸ mem_map_of_mem (mem_of_find?_eq_some hfind))
    · cases heq
    · cases signature
      cases heq
    · exact .inr (.inl hname)
    · exact .inr (.inr hname)
  bindings name hname := by
    have hnames := h.names
    rw [removeSpare, hkept, singleton_append, Stmt.namesOfAll, append_subset] at hnames
    have hown : name ∈ own ∧ isSpare marks name = false := by
      rcases hname with ⟨value, hvalue, hname⟩ | htarget
      · -- something reads the variable, so that it is not spare
        refine ⟨hnames.1 (by cases kept <;> cases hvalue <;> simp [Stmt.names, hname]), ?_⟩
        by_contra hspare
        have hunused := h.unused name (by simpa using hspare)
        rw [usesFree, (hallowed.usable_of_becomes hbecomes hvalue).2 name hname] at hunused
        cases hunused
      · refine ⟨hnames.1 (by cases kept <;> cases htarget; simp [Stmt.names]), ?_⟩
        cases stmt <;> grind [Stmt.Becomes, Stmt.target?]
    rw [← lookup_of_mirrors h.inBody h.mirrors name, ← h.lacks.find hown.2]
    have hlookup :=
      congrArg (Option.map fun key : String × Location => (Entity.value (.named key.1), some key.2))
        (h.tracks.lookup_eq hown.1)
    rwa [Option.map_map, Option.map_map] at hlookup
  declared := by
    rintro type name location rfl
    obtain rfl : stmt = .declaration type name location := by cases stmt <;> grind [Stmt.Becomes]
    exact lookup_file_of_find ((globals_eq_none_iff name).mp hallowed.1.unhidden)

/-- A statement is checked, and what is left of it is lowered. -/
theorem next (previous : Option Stmt)
    (h : InStep functions returns types own marks (stmt :: rest) checking.scope state
      env env' lowered)
    (hcheck : Check.execute stmt checking = .ok () middle) :
    ∃ after, Allowed (globals functions) returns stmt env after ∧ ∃ marks' after' lowered',
      spareBehind (isSpare marks) rest stmt = isSpare marks' ∧
        InStep functions returns types own marks' rest middle.scope
          (Lower.block previous (stmt.withoutSpare (isSpare marks) rest) state).2 after
          after' lowered' := by
  obtain ⟨hdirect, hinBody⟩ :=
    (Ordered.simulates_execute Order.asNoted_rearranges stmt).ok (Ordered.projects_execute stmt)
      h.inBody hcheck
  obtain ⟨after, hallowed, hmirrors⟩ :=
    (agree_execute type_of_globals h.mirrors h.nonempty h.apart).allowed hdirect
  obtain ⟨first, marks, rfl⟩ : ∃ first outer, marks = first :: outer := by
    cases h.lacks with
    | nil => exact absurd rfl h.nonempty
    | cons => exact ⟨_, _, rfl⟩
  obtain ⟨after', next, hkept, hlacks, hspare, hunused⟩ :=
    allowedAll_withoutSpare_of_plain h.unused h.lacks hallowed fun hdeclares huses =>
      allowedAll_withoutSpare rest hdeclares huses h.lacks hallowed
  have hnames := h.names
  rw [removeSpare, namesOfAll_append, append_subset, hspare] at hnames
  obtain ⟨lowered', hlowered, htracks⟩ :=
    allowed_block hknown previous hnames.1 h.returnTypes h.frames h.tracks h.unhidden hkept
  have hgrown :=
    Lower.grown_block previous (stmt.withoutSpare (isSpare (first :: marks)) rest) state
  refine ⟨after, hallowed, next :: marks, after', lowered', hspare, hinBody, hmirrors,
    Env.ne_nil_of_length h.nonempty hallowed.grows.length_eq, h.apart.allowed hallowed, hlacks,
    hunused, hnames.2, htracks, h.unhidden.allowedAll hlowered,
    hgrown.returnTypes.trans h.returnTypes, ?_⟩
  rw [← length_pos_iff, hgrown.length, length_pos_iff]
  exact h.frames

/-- The body of a condition is entered. -/
theorem inside {condition : Expr} {body : List Stmt} {location : Location}
    (h : InStep functions returns types own marks (.conditional condition body location :: rest)
      checking.scope state env env' lowered)
    (hcondition : Check.condition condition checking = .ok () middle) :
    ∃ lowered', InStep functions returns types own ([] :: marks) body middle.scope.child
      (Lower.opened condition state) ([] :: env) ([] :: env') lowered' := by
  obtain ⟨hdirect, hinBody⟩ :=
    (Ordered.simulates_condition condition).ok (projects_lift _) h.inBody hcondition
  obtain ⟨hinferable, hread⟩ := Direct.condition_eq_ok_iff.mp hdirect
  have hstack : middle.scope.settled = checking.scope.settled.read condition.names :=
    congrArg Direct.State.stack hread
  have hunused := h.unused
  simp only [usesFree, Stmt.uses, Bool.or_eq_false_iff] at hunused
  have hnames := h.names
  rw [removeSpare, Stmt.withoutSpare, singleton_append, Stmt.namesOfAll, Stmt.names, append_subset,
    append_subset] at hnames
  obtain ⟨later, hsetup, -, htracks⟩ :=
    tracks_opened returns hknown h.returnTypes hnames.1.1 h.tracks h.unhidden
      (h.lacks.usable (h.mirrors.usable_iff.mpr hinferable) fun name hname =>
        (hunused name hname).1.1)
  refine ⟨_, Ordered.inBody_child hinBody.nested (by rw [hinBody.inner]; rfl), ?_,
    cons_ne_nil _ _, h.apart.push, h.lacks.push, fun name hname =>
    (hunused name hname).1.2, hnames.1.2, htracks, hsetup.apart.push,
      (Lower.later_hoist condition).returnTypes.trans h.returnTypes, ?_⟩
  · rw [Ordered.settled_child, hstack]
    exact (h.mirrors.read condition.names).push h.nonempty
  · rw [Lower.frames_opened]
    exact cons_ne_nil _ _

/-- **The two walks agree at every position** they come to hand in hand. -/
theorem agrees_of_follows {source found : Stmt} {reached : Checking} {final : Lowering}
    {spare : String → Bool} {previous : Option Stmt}
    (hfollows : Lower.Follows source reached found final spare block checking previous state)
    (hspare : spare = isSpare marks)
    (h : InStep functions returns types own marks block checking.scope state env env' lowered)
    (hcheck : Check.executeAll block checking = .ok () last) :
    TypesAgree functions reached.scope found final := by
  induction hfollows generalizing marks env env' lowered last with
  | @here spare rest previous hkept =>
    subst hspare
    obtain ⟨_, hfirst, -⟩ := Check.executeAll_cons hcheck
    obtain ⟨after, hallowed, -⟩ := h.next hknown previous hfirst
    rcases source.becomes (isSpare marks) rest with hnone | ⟨kept, hsome, hbecomes⟩
    · cases hnone.symm.trans hkept
    · cases hsome.symm.trans hkept
      exact h.agrees hknown hallowed hkept hbecomes
  | @removed spare stmt rest checking middle previous state hkept hfirst _ ih =>
    subst hspare
    obtain ⟨_, hfirst', hrest⟩ := Check.executeAll_cons hcheck
    cases hfirst.symm.trans hfirst'
    obtain ⟨_, -, marks', _, _, hspare, hnext⟩ := h.next hknown previous hfirst
    rw [hkept] at hnext
    exact ih hspare hnext hrest
  | @behind spare stmt kept rest checking middle previous state hkept hfirst _ ih =>
    subst hspare
    obtain ⟨_, hfirst', hrest⟩ := Check.executeAll_cons hcheck
    cases hfirst.symm.trans hfirst'
    obtain ⟨_, -, marks', _, _, hspare, hnext⟩ := h.next hknown previous hfirst
    rw [hkept, Lower.block_cons_eq] at hnext
    exact ih hspare hnext hrest
  | inside hcondition _ ih =>
    -- a body starts without variables of its own, so that the same names are spare
    have hinner : _ = isSpare ([] :: marks) := hspare
    obtain ⟨_, hfirst, -⟩ := Check.executeAll_cons hcheck
    obtain ⟨_, _, hcondition', hbody⟩ := Check.execute_conditional hfirst
    cases hcondition.symm.trans hcondition'
    obtain ⟨lowered', hinside⟩ := h.inside hknown hcondition
    exact ih hinner hinside hbody

end InStep

/-! ### Functions -/

variable {function output : FunctionDef}

theorem exists_entered (hwell : function.WellFormed)
    (h : Direct.Checked functions function output) :
    ∃ entered last,
      Check.enter function.signature function { scope := (Scope.file functions).child } =
        .ok () entered ∧ Check.executeAll function.body entered = .ok () last ∧
        entered.scope.InBody ∧
        entered.scope.settled = Tier.ofFunction function ::
          Stack.ofScope (Scope.file functions) := by
  have hchild : (Checking.mk (Scope.file functions).child []).scope.InBody :=
    Ordered.inBody_child (Ordered.nested_file functions) rfl
  have hsimulates : Ordered.Simulates (Ordered.lift (Check.enter function.signature function)) (do
      Direct.modifyStack
        (·.modifyTop fun tier => { tier with returns := function.signature.returns })
      Direct.declareParameters function.parameters function.signature.parameters) := by
    rw [Check.enter, Ordered.lift_bind]
    refine (Ordered.simulates_modifyScope fun scope hbody =>
      ⟨rfl, Ordered.inBody_modifyOwn hbody rfl rfl rfl, rfl⟩).bind fun _ => ?_
    exact Ordered.simulates_declareParameters _ _
  have henter : ∃ entered,
      Check.enter function.signature function { scope := (Scope.file functions).child } =
      .ok () entered ∧
      Direct.State.mk (Tier.ofFunction function :: Stack.ofScope (Scope.file functions)) [] =
        ⟨entered.scope.settled, entered.warnings⟩ ∧ entered.scope.InBody := by
    refine hsimulates.of_ok (projects_lift _) hchild ?_
    rw [Ordered.settled_child, Ordered.settled_file]
    refine bind_eq_ok_iff.mpr
      ⟨(), _, rfl, Direct.declareParameters_signature_eq_ok_iff.mpr ⟨⟨hwell.distinct, ?_⟩, rfl⟩⟩
    exact fun parameter hparameter => Direct.clash_file_iff.mpr (h.free parameter hparameter)
  obtain ⟨entered, hentered, hsettled, hinBody⟩ := henter
  obtain ⟨inner, hbody, -⟩ := h.body
  obtain ⟨last, hlast, -⟩ :=
    (Ordered.simulates_executeAll Order.asNoted_rearranges function.body).of_ok
      (Ordered.projects_executeAll function.body) hinBody (hsettled ▸ hbody)
  exact ⟨entered, last, hentered, hlast, hinBody, (congrArg Direct.State.stack hsettled).symm⟩

/-- Lowering functions changes nothing about the table of functions, and only takes names. -/
theorem lower_context (context : Context) (functions : List FunctionDef) :
    (context.lower (functions.map toStmt)).2.returnTypes = context.returnTypes ∧
      context.names.taken ⊆ (context.lower (functions.map toStmt)).2.names.taken := by
  induction functions generalizing context with
  | nil => exact ⟨rfl, Subset.refl _⟩
  | cons function functions ih =>
    obtain ⟨hreturnTypes, htaken⟩ := context.lowerFunction_context function
    obtain ⟨hreturnTypes', htaken'⟩ := ih (context.lowerFunction function).2
    exact ⟨hreturnTypes'.trans hreturnTypes, Subset.trans htaken htaken'⟩

/-- A check and lowering start in step. -/
theorem inStep_start {checked : List FunctionDef} {context : Context} {scope : Scope}
    (hwell : function.WellFormed) (hchecked : Direct.Checked functions function output)
    (hmem : output ∈ checked) (hown : Stmt.namesOfAll (checked.map toStmt) ⊆ context.names.taken)
    (hinBody : scope.InBody)
    (hsettled : scope.settled = Tier.ofFunction function :: Stack.ofScope (Scope.file functions)) :
    InStep functions function.signature.returns context.returnTypes
      (Stmt.namesOfAll (checked.map toStmt))
      ((startOf function).map (·.map fun slot => (slot.name, false))) function.body scope
      (.start context output) (startOf function) (startOf function) (startOf function) := by
  have hfree : ∀ parameter ∈ function.parameters, globals functions parameter.name.text = none :=
    fun parameter hparameter => (globals_eq_none_iff _).mpr (hchecked.free parameter hparameter)
  have hnames := names_subset_namesOfAll hmem
  have hspare := isSpare_self (startOf function)
  have hbody := Subset.trans (body_subset_names output) hnames
  rw [hchecked.body_eq hwell, ← hspare] at hbody
  obtain ⟨inner, -, rfl⟩ := hchecked.body
  refine ⟨hinBody, hsettled ▸ mirrors_startOf hwell, startOf_ne_nil function,
    apart_startOf hfree, .self _,
    fun name hname => Bool.noConfusion (hname.symm.trans (congrFun hspare name)), hbody,
    tracks_start hown (fun parameter hparameter => hnames (parameter_mem_names hparameter))
      (length_map _),
    apart_startOf hfree, rfl, cons_ne_nil _ _⟩

end Execution

open Execution Refcount in
/-- **Lowering finds the types of the check.** A checked program is that of its functions, which are
left of the functions of the program one by one, in their order. When the check enters a function,
none of the names of its parameters is known to the file. Lowering starts with what is left of it,
behind the functions in front; wherever it comes to a statement, the check has come to what the
statement is left of, at the same position. And at each pair of positions like that, the two tell
the same: the types of the values there, with temporaries in the place of the values inside; that
what is called is a function of the file or a built-in one; which variable a name stands for; and
that a variable that is declared has a name that is new to the file. -/
theorem lowering_types_agree {program kept : Program} (h : program.check.result = .ok kept) :
    ∃ functions checked, program.functions = .ok functions ∧ kept = checked.map toStmt ∧
      Program.fileScope functions = .ok (Scope.file functions) ∧
      ∀ front output back, checked = front ++ output :: back → ∃ function entered start,
        functions[front.length]? = some function ∧
        Check.enter function.signature function { scope := (Scope.file functions).child } =
          .ok () entered ∧
        start = Lowering.start ((Context.ofProgram kept).lower (front.map toStmt)).2 output ∧
        (∀ parameter ∈ output.parameters,
          (Scope.file functions).lookup parameter.name.text = none) ∧
        ∀ stmt state,
          (Lower.Reaches none output.body start stmt state ↔ ∃ source checking,
            Lower.Follows source checking stmt state (fun _ => false) function.body entered none
              start) ∧
          ∀ source checking, Lower.Follows source checking stmt state (fun _ => false)
              function.body entered none start →
            Check.Reaches function.body entered source checking ∧
              TypesAgree functions checking.scope stmt state := by
  rw [Ordered.check_eq_direct_check] at h
  obtain ⟨functions, checked, rfl, rfl, hfile⟩ := Direct.check_eq_ok h
  refine ⟨functions, checked, functions_of_toStmt functions, rfl,
    fileScope_of_allowedFile (allowedFile_of_checkedFile hfile), ?_⟩
  intro front output back heq
  have hlt : front.length < functions.length := by
    rw [hfile.each.length_eq, heq, List.length_append, List.length_cons]
    omega
  have hchecked : Direct.Checked functions functions[front.length] output := by
    have hget := hfile.each.get hlt (hfile.each.length_eq ▸ hlt)
    simpa [heq] using hget
  have hmem : output ∈ checked := heq ▸ List.mem_append_right front List.mem_cons_self
  have hwell := hfile.wellFormed _ (List.getElem_mem hlt)
  obtain ⟨entered, last, hentered, hlast, hinBody, hsettled⟩ := exists_entered hwell hchecked
  obtain ⟨hreturnTypes, htaken⟩ := lower_context (Context.ofProgram (checked.map toStmt)) front
  have hstep := inStep_start hwell hchecked hmem htaken hinBody hsettled
  refine ⟨_, entered, _, List.getElem?_eq_getElem hlt, hentered, rfl,
    fun parameter hparameter => ?_,
    fun stmt state => ⟨?_, fun source checking hfollows => ⟨hfollows.check_reaches, ?_⟩⟩⟩
  · exact lookup_file_of_find
      (hchecked.free parameter ((sameHead_checked hchecked).parameters ▸ hparameter))
  · rw [hchecked.body_eq hwell]
    exact ⟨fun hreaches => hreaches.exists_follows hlast,
      fun ⟨_, _, hfollows⟩ => hfollows.lower_reaches⟩
  · exact InStep.agrees_of_follows (hreturnTypes ▸ known_checked hfile) hfollows
      (isSpare_self (startOf functions[front.length])).symm hstep hlast

open Execution in
/-- The text that `unreadAnswers` prints is in the inner one of its variables, and the outer one is
not left. -/
theorem lowering_types_agree_unreadAnswers :
    ∃ kept functions scope state, unreadAnswers.check.result = .ok kept ∧
      unreadAnswers.functions = .ok functions ∧
      TypesAgree functions scope
        (.expression (.call (.name ⟨"print", default⟩) [.name ⟨"answer", default⟩] default)
          default) state := by
  obtain ⟨kept, hkept, -⟩ : ∃ kept, unreadAnswers.check.result = .ok kept ∧ True :=
    exists_kept (by decide +kernel)
  obtain ⟨functions, checked, hprogram, hchecked, -, hall⟩ := lowering_types_agree hkept
  have hfunctions := functions_of_toStmt checked
  rw [← hchecked, eq_removeSpare_of_check hkept] at hfunctions
  cases hfunctions
  obtain ⟨function, entered, start, -, -, -, -, hall⟩ := hall [_] _ [] rfl
  obtain ⟨source, checking, hfollows⟩ :=
    (hall _ _).1.mp (.behind (.inside (.behind (.behind (.behind .here)))))
  obtain ⟨-, hsame⟩ := (hall _ _).2 source checking hfollows
  exact ⟨kept, functions, checking.scope, _, hkept, hprogram, hsame⟩

end FrontEnd
