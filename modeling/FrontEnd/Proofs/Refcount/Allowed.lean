import FrontEnd.Proofs.Refcount.Simulation
import FrontEnd.Proofs.Typing.Allowed

/-!
# Rules for lowered statements

The lowered form of a statement is allowed where the statement is allowed (`allowed_block`). The
rules are followed in two environments as runs are: that of the lowered statements has the
temporaries more, and what lowering knows of the variables is right (`Tracks`).

A temporary is declared under a name that was free, with the type that the rules give to its value,
and has its value before anything reads it (`inFront_makeTemp`). What is left of an expression
without the arguments that were moved stands for what the expression stands for, in every later
environment in which the temporaries are what they were (`inFront_hoist`).
-/

namespace FrontEnd.Execution

open Refcount Direct Lower List

/-! ### What lowering knows of the names outside of bodies -/

/-- What lowering knows of names outside of bodies is right: the types that functions return, and
that no temporary has such a name. -/
structure Known (globals : String → Option Entity) (types : ReturnTypes)
    (own : List String) : Prop where
  returns : ∀ (name : String) (signature : Signature), globals name = some (.value signature.toTy) →
    (types.lookup name).join.map Ty.named = signature.returns
  basic : ∀ name type, (types.lookup name).join = some type → type ∈ Ty.basicNames
  types : ∀ type ∈ Ty.basicNames, globals type = some (.type (.named type))
  free : ∀ number, TempNames.numbered number ∉ own → globals (TempNames.numbered number) = none

theorem mem_basicNames_of_isHeap {type : String} (h : isHeap type = true) :
    type ∈ Ty.basicNames := by
  rw [isHeap, Bool.or_eq_true, decide_eq_true_iff, decide_eq_true_iff] at h
  rcases h with rfl | rfl <;> simp [Ty.basicNames]

section Lowered

variable {globals : String → Option Entity} {returns : Option Ty} {types : ReturnTypes}
  {own : List String} {env env' : Env Data} {state : Lowering} {expression value argument : Expr}
  {entity : Option Entity} {type : String}

/-- **Lowering finds the types of the rules**: the type of an expression that is no variable, and
none for a call that gives no value. -/
theorem Known.entity_eq (h : Known globals types own) (hname : ∀ name, expression ≠ .name name)
    (hstands : Stands (entityIn globals env) expression entity) :
    entity = (valueType types expression).map fun type => .value (.named type) := by
  cases expression with
  | name name => exact absurd rfl (hname name)
  | integer digits location | string text location => exact hstands
  | call function =>
    rw [Stands] at hstands
    obtain ⟨callee, signature, values, hfunction, hsignature, -, -, rfl⟩ := hstands
    have hbasic : ∀ (name : String)
        (signature : Signature), globals name = some (.value signature.toTy) →
        ∀ type ∈ signature.returns, ∃ basic, type = Ty.named basic := by
      intro name signature hglobal type htype
      rw [← h.returns name signature hglobal] at htype
      obtain ⟨basic, -, rfl⟩ := Option.map_eq_some_iff.mp htype
      exact ⟨basic, rfl⟩
    -- a variable is no function, so the name is one of the file
    obtain ⟨function, rfl, -, hglobal⟩ := callee_of_stands hbasic hfunction hsignature
    rw [← h.returns _ _ hglobal, Option.map_map]
    rfl

theorem Known.entity_of_valueType (h : Known globals types own)
    (hstands : Stands (entityIn globals env) expression entity)
    (htype : valueType types expression = some type) :
    entity = some (.value (.named type)) := by
  have hname : ∀ name, expression ≠ .name name := by
    rintro name rfl
    cases htype
  rw [h.entity_eq hname hstands, htype]
  rfl

theorem Known.global_of_valueType (h : Known globals types own)
    (htype : valueType types expression = some type) :
    globals type = some (.type (.named type)) := by
  refine h.types type ?_
  cases expression with
  | name => cases htype
  | integer | string => cases htype; simp [Ty.basicNames]
  | call function =>
    cases function with
    | name => exact h.basic _ _ htype
    | integer | string | call => cases htype

/-! ### Temporaries -/

/-- Statements in front of others are allowed, and leave all variables as they are whose names were
taken. -/
structure InFront (globals : String → Option Entity) (returns : Option Ty) (own : List String)
    (state after : Lowering) (env : Env Data) (block : List Stmt)
    (env' later : Env Data) : Prop where
  allowed : AllowedAll globals returns block env' later
  covers : Covers own after.names.taken env later
  apart : Apart globals later
  kept : ∀ name ∈ state.names.taken, later.find name = env'.find name

namespace InFront

variable {middle after : Lowering} {later : Env Data} {block rest : List Stmt}

theorem nil (hcovers : Covers own state.names.taken env env') (hapart : Apart globals env') :
    InFront globals returns own state state env [] env' env' :=
  ⟨by rw [AllowedAll], hcovers, hapart, fun _ _ => rfl⟩

theorem append {between : Env Data}
    (h : InFront globals returns own state middle env block env' between)
    (h' : InFront globals returns own middle after env rest between later)
    (hlater : state.Later middle) :
    InFront globals returns own state after env (block ++ rest) env' later :=
  ⟨h.allowed.append h'.allowed, h'.covers, h'.apart,
    fun name hname => (h'.kept name (hlater.taken hname)).trans (h.kept name hname)⟩

/-- What an expression stands for does not change if its names were taken before. -/
theorem usable (h : InFront globals returns own state after env block env' later)
    {expression : Expr} {entity : Option Entity} (husable : Usable globals env' expression entity)
    (hnames : expression.names ⊆ state.names.taken) : Usable globals later expression entity :=
  husable.congr fun name hname => h.kept name (hnames hname)

end InFront

/-- **A temporary for a value** is allowed, and can be used in place of the value. -/
theorem inFront_makeTemp (returns : Option Ty) (hknown : Known globals types own)
    (hcovers : Covers own state.names.taken env env') (hapart : Apart globals env')
    (hglobal : globals type = some (.type (.named type)))
    (husable : Usable globals env' value (some (.value (.named type))))
    (hnames : value.names ⊆ state.names.taken) :
    ∃ later, InFront globals returns own state (makeTemp value type state).2 env
        (makeTemp value type state).1.setup env' later ∧
      Usable globals later (makeTemp value type state).1.use (some (.value (.named type))) := by
  have hfree : (makeTemp value type state).1.place.name ∉ state.names.taken :=
    name_makeTemp_not_mem value type
  have htaken : (makeTemp value type state).1.place.name ∈
      (makeTemp value type state).2.names.taken := name_makeTemp_mem value type
  have hlater : state.Later (makeTemp value type state).2 := later_makeTemp value type
  have htype : (makeTemp value type state).1.place.type = type := rfl
  have hvalue : (makeTemp value type state).1.value = value := rfl
  have hunhidden : globals (makeTemp value type state).1.place.name = none :=
    hknown.free state.names.nextNumber fun hown =>
      state.names.numbered_nextNumber_not_mem (hcovers.own hown)
  generalize (makeTemp value type state).1 = temp at *
  subst hvalue htype
  have hdeclare : Allowed globals returns
      (.declaration ⟨temp.place.type, temp.place.location⟩ temp.place.name temp.place.location) env'
      (env'.declare (slotOf temp.place .unset)) := by
    refine ⟨⟨fun slot hslot hname => hfree ?_, hunhidden⟩, ?_, rfl⟩
    · rw [← hname]
      refine hcovers.slots slot ?_
      cases env' with
      | nil => cases hslot
      | cons => exact mem_append_left _ hslot
    · exact entityIn_type.mpr ⟨hapart.find_eq_none (by rw [hglobal]; rfl), hglobal⟩
  -- the new slot hides none of the names that were taken
  have hfind : ∀ (content : Value Data), ∀ name ∈ state.names.taken,
      (env'.declare (slotOf temp.place content)).find name = env'.find name := by
    intro content name hname
    rw [Env.find_declare hcovers.ne_nil, if_neg]
    rintro rfl
    exact hfree hname
  have hslot : ∀ (content : Value Data),
      (env'.declare (slotOf temp.place content)).find temp.place.name =
      some (slotOf temp.place content) := by
    intro content
    rw [Env.find_declare hcovers.ne_nil]
    exact if_pos rfl
  have hassign : Allowed globals returns
      (.assignment ⟨temp.place.name, temp.place.location⟩ temp.value temp.place.location)
      (env'.declare (slotOf temp.place .unset)) (env'.declare (slotOf temp.place filled)) := by
    refine ⟨slotOf temp.place .unset, hslot .unset, ?_, ?_⟩
    · exact husable.congr fun name hname => hfind .unset name (hnames hname)
    · exact (Env.update_declare hcovers.ne_nil (slotOf temp.place .unset) filled).symm
  have hsetup : AllowedAll globals returns temp.setup env'
      (env'.declare (slotOf temp.place filled)) := by
    have hretain : AllowedAll globals returns
        (if temp.isCopy then [.retain temp.place.name temp.place.location] else [])
        (env'.declare (slotOf temp.place filled)) (env'.declare (slotOf temp.place filled)) := by
      split
      · exact allowedAll_singleton.mpr rfl
      · rw [AllowedAll]
    exact ((allowedAll_singleton.mpr hdeclare).append (allowedAll_singleton.mpr hassign)).append
      hretain
  refine ⟨env'.declare (slotOf temp.place filled),
    ⟨hsetup, hcovers.declare_free hlater.taken hfree htaken, hapart.declare hunhidden,
      hfind filled⟩, ⟨_, ?_, rfl⟩, fun name hname slot hfound => ?_⟩
  · show entityIn globals _ temp.place.name = _
    rw [entityIn, hslot filled]
    rfl
  · rw [mem_singleton.mp hname, hslot filled] at hfound
    cases hfound
    simp [slotOf, filled]

/-! ### Expressions -/

/-- Arguments that stand for something, and whose variables have values. -/
structure UsableAll (globals : String → Option Entity) (env : Env Data) (arguments : List Expr)
    (values : List Entity) : Prop where
  stands : StandAll (entityIn globals env) arguments values
  ready : Assigned env (Expr.namesOfAll arguments)

theorem usableAll_nil : UsableAll globals env [] [] :=
  ⟨rfl, fun _ hname => absurd hname not_mem_nil⟩

theorem usableAll_cons {arguments : List Expr} {values : List Entity} :
    UsableAll globals env (argument :: arguments) values ↔
      ∃ first rest, values = first :: rest ∧ Usable globals env argument (some first) ∧
        UsableAll globals env arguments rest := by
  constructor
  · rintro ⟨hstands, hready⟩
    rw [StandAll] at hstands
    obtain ⟨first, rest, hargument, hall, rfl⟩ := hstands
    rw [Expr.namesOfAll] at hready
    exact ⟨first, rest, rfl, ⟨hargument, fun name hname => hready name (mem_append_left _ hname)⟩,
      hall, fun name hname => hready name (mem_append_right _ hname)⟩
  · rintro ⟨first, rest, rfl, hargument, hall⟩
    refine ⟨?_, ?_⟩
    · rw [StandAll]
      exact ⟨first, rest, hargument.stands, hall.stands, rfl⟩
    · rw [Expr.namesOfAll]
      intro name hname
      exact (mem_append.mp hname).elim (hargument.ready name) (hall.ready name)

/-- What is moved out of an argument, and the argument itself if it is on the heap. -/
theorem inFront_hoistArgument (hknown : Known globals types own)
    (htypes : state.returnTypes = types) {entity : Entity} (hname : ∀ name, argument ≠ .name name)
    (husable : Usable globals env argument (some entity))
    (hhoist : ∃ later, InFront globals returns own state (hoist argument state).2 env
        ((hoist argument state).1.2.flatMap Temp.setup) env' later ∧
      Usable globals later (hoist argument state).1.1 (some entity) ∧
      (hoist argument state).1.1.names ⊆ (hoist argument state).2.names.taken) :
    ∃ later, InFront globals returns own state (hoistArgument argument state).2 env
        ((hoistArgument argument state).1.2.flatMap Temp.setup) env' later ∧
      Usable globals later (hoistArgument argument state).1.1 (some entity) ∧
      (hoistArgument argument state).1.1.names ⊆ (hoistArgument argument state).2.names.taken := by
  rw [hoistArgument_eq hname, htypes]
  cases htype : (valueType types argument).filter isHeap with
  | none => exact hhoist
  | some type =>
    obtain ⟨later, hsetup, hleft, hnames⟩ := hhoist
    have htype := (Option.filter_eq_some_iff.mp htype).1
    cases hknown.entity_of_valueType husable.stands htype
    obtain ⟨after, htemp, huse⟩ := inFront_makeTemp returns hknown hsetup.covers hsetup.apart
      (hknown.global_of_valueType htype) hleft hnames
    refine ⟨after, ?_, huse, ?_⟩
    · rw [flatMap_append, flatMap_singleton]
      exact hsetup.append htemp (later_hoist argument)
    · intro name hmem
      rw [mem_singleton.mp hmem]
      exact name_makeTemp_mem (hoist argument state).1.1 type

mutual

/-- **What is moved out of an expression** is allowed in front of it, and what is left stands for
the same. -/
theorem inFront_hoist (returns : Option Ty) (hknown : Known globals types own) :
    ∀ {expression : Expr} {state : Lowering} {env' : Env Data}
      {entity : Option Entity}, state.returnTypes = types → expression.names ⊆ own →
    Covers own state.names.taken env env' → Apart globals env' →
    Usable globals env expression entity →
    ∃ later, InFront globals returns own state (hoist expression state).2 env
        ((hoist expression state).1.2.flatMap Temp.setup) env' later ∧
      Usable globals later (hoist expression state).1.1 entity ∧
      (hoist expression state).1.1.names ⊆ (hoist expression state).2.names.taken
  | .call function arguments location, state, env', entity, htypes, hown, hcovers,
      hapart, husable => by
    obtain ⟨hstands, hready⟩ := husable
    rw [Stands] at hstands
    obtain ⟨callee, signature, values, hfunction, hsignature, hall, hmatch, rfl⟩ := hstands
    rw [Expr.names] at hown hready
    obtain ⟨later, hsetup, hleft, hnames⟩ := inFront_hoistArguments returns hknown htypes
      (fun name hname => hown (mem_append_right _ hname)) hcovers hapart
      ⟨hall, fun name hname => hready name (mem_append_right _ hname)⟩
    have hcallee : Usable globals later function (some callee) := by
      refine Usable.congr ⟨hfunction, fun name hname => hready name (mem_append_left _ hname)⟩ ?_
      exact fun name hname => hsetup.covers.find (hown (mem_append_left _ hname))
    rw [hoist_call]
    refine ⟨later, hsetup, ⟨?_, ?_⟩, ?_⟩
    · rw [Stands]
      exact ⟨callee, signature, values, hcallee.stands, hsignature, hleft.stands, hmatch, rfl⟩
    · rw [Expr.names]
      intro name hname
      exact (mem_append.mp hname).elim (hcallee.ready name) (hleft.ready name)
    · rw [Expr.names]
      intro name hname
      exact (mem_append.mp hname).elim
        (fun hname => hsetup.covers.own (hown (mem_append_left _ hname)))
        (fun hname => hnames hname)
  | .name name, state, env', entity, htypes, hown, hcovers, hapart, husable
  | .integer digits location, state, env', entity, htypes, hown, hcovers, hapart, husable
  | .string text location, state, env', entity, htypes, hown, hcovers, hapart, husable => by
    rw [hoist_of_not_call rfl]
    exact ⟨env', .nil hcovers hapart, husable.congr fun other hother => hcovers.find (hown hother),
      fun other hother => hcovers.own (hown hother)⟩

theorem inFront_hoistArguments (returns : Option Ty) (hknown : Known globals types own) :
    ∀ {arguments : List Expr} {state : Lowering} {env' : Env Data}
      {values : List Entity}, state.returnTypes = types →
    Expr.namesOfAll arguments ⊆ own → Covers own state.names.taken env env' → Apart globals env' →
    UsableAll globals env arguments values →
    ∃ later, InFront globals returns own state (hoistArguments arguments state).2 env
        ((hoistArguments arguments state).1.2.flatMap Temp.setup) env' later ∧
      UsableAll globals later (hoistArguments arguments state).1.1 values ∧
      Expr.namesOfAll (hoistArguments arguments state).1.1 ⊆
        (hoistArguments arguments state).2.names.taken
  | [], state, env', values, htypes, hown, hcovers, hapart, husable => by
    rw [hoistArguments_nil]
    cases husable.stands
    exact ⟨env', .nil hcovers hapart, usableAll_nil, nil_subset _⟩
  | argument :: arguments, state, env', values, htypes, hown, hcovers, hapart, husable => by
    rw [Expr.namesOfAll] at hown
    have hfirst : argument.names ⊆ own := fun name hname => hown (mem_append_left _ hname)
    have hrest : Expr.namesOfAll arguments ⊆ own :=
      fun name hname => hown (mem_append_right _ hname)
    obtain ⟨first, rest, rfl, hargument, hall⟩ := usableAll_cons.mp husable
    rcases argument.name_or_ne with ⟨name, rfl⟩ | hname
    · obtain ⟨later, hsetup, hleft, hnames⟩ :=
        inFront_hoistArguments returns hknown htypes hrest hcovers hapart hall
      rw [hoistArguments_name]
      refine ⟨later, hsetup, usableAll_cons.mpr ⟨first, rest, rfl, ?_, hleft⟩, ?_⟩
      · exact hargument.congr fun other hother => hsetup.covers.find (hfirst hother)
      · rw [Expr.namesOfAll]
        exact append_subset.mpr ⟨fun other hother => hsetup.covers.own (hfirst hother), hnames⟩
    · obtain ⟨middle, hsetup, hsettled, hnames⟩ :=
        inFront_hoistArgument hknown htypes hname hargument (inFront_hoist returns hknown htypes
          hfirst hcovers hapart hargument)
      have hlater : state.Later (hoistArgument argument state).2 :=
        later_hoistArgument (later_hoist argument)
      obtain ⟨later, hsetup', hleft, hnames'⟩ := inFront_hoistArguments returns hknown
        (hlater.returnTypes.trans htypes) hrest hsetup.covers hsetup.apart hall
      rw [hoistArguments_cons hname]
      refine ⟨later, ?_,
        usableAll_cons.mpr ⟨first, rest, rfl, hsetup'.usable hsettled hnames, hleft⟩, ?_⟩
      · rw [flatMap_append]
        exact hsetup.append hsetup' hlater
      · rw [Expr.namesOfAll]
        exact append_subset.mpr
          ⟨Subset.trans hnames (later_hoistArguments arguments).taken, hnames'⟩

end

/-! ### Statements -/

/-- To count is allowed everywhere, and changes no variable. -/
theorem allowedAll_of_counting {block : List Stmt} (h : ∀ stmt ∈ block, isCounting stmt = true) :
    AllowedAll globals returns block env env := by
  induction block with
  | nil => rw [AllowedAll]
  | cons stmt block ih =>
    rw [forall_mem_cons] at h
    refine (allowedAll_singleton.mpr ?_).append (ih h.2)
    cases stmt with
    | retain => exact rfl
    | release => exact rfl
    | expression | declaration | assignment | conditional | result | function => cases h.1

section

variable (hknown : Known globals types own) (htypes : state.returnTypes = types)
include hknown htypes

theorem allowed_expression
    (hown : value.names ⊆ own) (htracks : Tracks own state env env') (hapart : Apart globals env')
    (husable : Usable globals env value entity) (location : Location) :
    ∃ after', AllowedAll globals returns (Lower.expression value location state).1 env' after' ∧
      Tracks own (Lower.expression value location state).2 env after' := by
  obtain ⟨later, hsetup, hleft, hnames⟩ :=
    inFront_hoist returns hknown htypes hown htracks.covers hapart husable
  rw [expression_eq, htypes]
  split
  · next type _ htype =>
    have htype := (Option.filter_eq_some_iff.mp htype).1
    cases hknown.entity_of_valueType husable.stands htype
    obtain ⟨after', htemp, -⟩ := inFront_makeTemp returns hknown hsetup.covers hsetup.apart
      (hknown.global_of_valueType htype) hleft hnames
    refine ⟨after', ?_, htracks.later (later_makeTemp_hoist value type) htemp.covers⟩
    refine (hsetup.allowed.append (htemp.allowed.append ?_)).append
      (allowedAll_of_counting (counting_releaseTemps _))
    exact allowedAll_singleton.mpr rfl
  · refine ⟨later, ?_, htracks.later (later_hoist value) hsetup.covers⟩
    refine (hsetup.allowed.append ?_).append (allowedAll_of_counting (counting_releaseTemps _))
    exact allowedAll_singleton.mpr ⟨⟨entity, hleft⟩, rfl⟩

theorem allowed_assignment (fresh : Bool)
    {target : Name} {slot : Slot Data} (htarget : target.text ∈ own) (hown : value.names ⊆ own)
    (htracks : Tracks own state env env') (hapart : Apart globals env')
    (hslot : env.find target.text = some slot)
    (husable : Usable globals env value (some (.value (.named slot.type)))) (location : Location) :
    ∃ after', AllowedAll globals returns (Lower.assignment fresh target value location
      state).1 env' after' ∧
      Tracks own (Lower.assignment fresh target value location state).2
        (env.update target.text filled) after' := by
  obtain ⟨later, hsetup, hleft, hnames⟩ :=
    inFront_hoist returns hknown htypes hown htracks.covers hapart husable
  have hfind : later.find target.text = some slot := (hsetup.covers.find htarget).trans hslot
  have hassign : AllowedAll globals returns
      [.assignment target (hoist value state).1.1 location] later
      (later.update target.text filled) :=
    allowedAll_singleton.mpr ⟨slot, hfind, hleft, rfl⟩
  have htracks' := (htracks.later (later_hoist value) hsetup.covers).update htarget filled
  have hreleases : AllowedAll globals returns (releaseTemps (hoist value state).1.2)
      (later.update target.text filled) (later.update target.text filled) :=
    allowedAll_of_counting (counting_releaseTemps _)
  rw [assignment_eq]
  split
  · exact ⟨_, (hsetup.allowed.append hassign).append hreleases, htracks'⟩
  · refine ⟨_, (hsetup.allowed.append ?_).append hreleases, htracks'⟩
    split
    · exact hassign.append
        (allowedAll_singleton.mpr (rfl : Allowed globals returns (.retain _ _) _ _))
    · exact hassign
  -- a later value waits in a temporary of the type of the variable
  · next v hlookup =>
    obtain ⟨hlookup, hheap⟩ := Option.filter_eq_some_iff.mp hlookup
    have htype : v.type = slot.type := by
      have hsame := htracks.lookup_type htarget
      rw [hlookup, hslot] at hsame
      exact Option.some.inj hsame
    obtain ⟨after, htemp, huse⟩ := inFront_makeTemp returns hknown hsetup.covers hsetup.apart
      (hknown.types v.type (mem_basicNames_of_isHeap hheap)) (htype ▸ hleft) hnames
    have hfind' : after.find target.text = some slot := (htemp.covers.find htarget).trans hslot
    refine ⟨after.update target.text filled, ?_,
      (htracks.later (later_makeTemp_hoist value v.type) htemp.covers).update htarget filled⟩
    refine (hsetup.allowed.append (htemp.allowed.append ?_)).append
      (allowedAll_of_counting (counting_releaseTemps _))
    rw [AllowedAll]
    exact ⟨after, rfl, allowedAll_singleton.mpr ⟨slot, hfind', htype ▸ huse, rfl⟩⟩

theorem allowed_result {expected : Ty}
    (hreturns : returns = some expected) (hown : value.names ⊆ own)
    (htracks : Tracks own state env env') (hapart : Apart globals env')
    (husable : Usable globals env value (some (.value expected))) (location : Location) :
    ∃ after', AllowedAll globals returns (Lower.result value location state).1 env' after' ∧
      Tracks own (Lower.result value location state).2 env after' := by
  rcases value.name_or_ne with ⟨name, rfl⟩ | hname
  · have husable' : Usable globals env' (.name name) (some (.value expected)) :=
      husable.congr fun other hother => htracks.covers.find (hown hother)
    rw [Lower.result, resultName_eq]
    refine ⟨env', ((allowedAll_of_counting ?_).append
        (allowedAll_of_counting (counting_releaseAll _ _))).append
        (allowedAll_singleton.mpr ⟨⟨expected, hreturns, husable'⟩, rfl⟩), htracks⟩
    split
    · simp [isCounting]
    · simp
  · obtain ⟨later, hsetup, hleft, hnames⟩ :=
      inFront_hoist returns hknown htypes hown htracks.covers hapart husable
    rw [result_of_ne_name hname, resultValue_eq hname, htypes]
    split
    · next type htype =>
      cases hknown.entity_of_valueType husable.stands htype
      obtain ⟨after', htemp, huse⟩ := inFront_makeTemp returns hknown hsetup.covers hsetup.apart
        (hknown.global_of_valueType htype) hleft hnames
      refine ⟨after', ?_, htracks.later (later_makeTemp_hoist value type) htemp.covers⟩
      exact (((hsetup.allowed.append htemp.allowed).append
          (allowedAll_of_counting (counting_releaseTemps _))).append
          (allowedAll_of_counting (counting_releaseAll _ _))).append
            (allowedAll_singleton.mpr ⟨⟨_, hreturns, huse⟩, rfl⟩)
    · refine ⟨later, ?_, htracks.later (later_hoist value) hsetup.covers⟩
      rw [append_nil]
      exact ((hsetup.allowed.append (allowedAll_of_counting (counting_releaseTemps _))).append
        (allowedAll_of_counting (counting_releaseAll _ _))).append
          (allowedAll_singleton.mpr ⟨⟨expected, hreturns, hleft⟩, rfl⟩)

end

/-- The temporaries of a condition stay in the body around it, and the body behind it sees them. -/
theorem tracks_opened (returns : Option Ty) (hknown : Known globals types own)
    (htypes : state.returnTypes = types) {condition : Expr} (hown : condition.names ⊆ own)
    (htracks : Tracks own state env env') (hapart : Apart globals env')
    (husable : Usable globals env condition entity) :
    ∃ later, InFront globals returns own state (hoist condition state).2 env
        ((hoist condition state).1.2.flatMap Temp.setup) env' later ∧
      Usable globals later (hoist condition state).1.1 entity ∧
      Tracks own (Lower.opened condition state) ([] :: env) ([] :: later) := by
  obtain ⟨later, hsetup, hleft, -⟩ :=
    inFront_hoist returns hknown htypes hown htracks.covers hapart husable
  have hfree : ∀ v ∈ (hoist condition state).1.2.map Temp.place, v.name ∉ own := by
    intro v hv hmem
    obtain ⟨temp, htemp, rfl⟩ := mem_map.mp hv
    exact (newTemps_hoist condition _).free temp htemp (htracks.covers.own hmem)
  exact ⟨later, hsetup, hleft,
    ((htracks.later (later_hoist condition) hsetup.covers).declareAll hfree).push⟩

theorem allowed_conditional (hknown : Known globals types own) (htypes : state.returnTypes = types)
    (hframes : state.frames ≠ []) {previous : Option Stmt} {condition : Expr} {body : List Stmt}
    {inner : Env Data} (hown : condition.names ⊆ own) (htracks : Tracks own state env env')
    (hapart : Apart globals env') (husable : Usable globals env condition (some (.value .bool)))
    (hbody : ∀ opened, Tracks own (Lower.opened condition state) ([] :: env) opened →
      Apart globals opened →
      ∃ inner', AllowedAll globals returns (Lower.block none body (Lower.opened condition state)).1
        opened inner' ∧ Tracks own (Lower.block none body (Lower.opened condition state)).2 inner
        inner') (location : Location) :
    ∃ after', AllowedAll globals returns
        (statement previous (.conditional condition body location) state).1 env' after' ∧
      Tracks own (statement previous (.conditional condition body location) state).2
        inner.tail after' := by
  obtain ⟨later, hsetup, hleft, hopened⟩ :=
    tracks_opened returns hknown htypes hown htracks hapart husable
  obtain ⟨inner', hlowered, hinner⟩ := hbody ([] :: later) hopened hsetup.apart.push
  have hgrown := grown_block none body (Lower.opened condition state)
  have hinside : 1 < (Lower.block none body (Lower.opened condition state)).2.frames.length := by
    rw [hgrown.length, frames_opened, length_cons, Frames.length_declareAll]
    have := length_pos_iff.mpr hframes
    omega
  rw [statement_conditional_eq]
  refine ⟨inner'.tail, hsetup.allowed.append (allowedAll_singleton.mpr ?_), hinner.pop hinside⟩
  rw [Allowed]
  refine ⟨hleft, inner', ?_, rfl⟩
  split
  · exact hlowered
  · exact hlowered.append (allowedAll_of_counting (counting_releases _))

mutual

theorem allowed_statement (hknown : Known globals types own) (previous : Option Stmt) :
    ∀ {stmt : Stmt} {state : Lowering} {env env' after : Env Data}, stmt.names ⊆ own →
    state.returnTypes = types → state.frames ≠ [] → Tracks own state env env' → Apart globals env' →
    Allowed globals returns stmt env after →
    ∃ after', AllowedAll globals returns (statement previous stmt state).1 env' after' ∧
      Tracks own (statement previous stmt state).2 after after'
  | .expression value location, state, env, env', after, hown, htypes, hframes, htracks,
      hapart, h => by
    obtain ⟨⟨entity, husable⟩, rfl⟩ := h
    rw [statement]
    exact allowed_expression hknown htypes (fun name hname => hown (by simp [Stmt.names, hname]))
      htracks hapart
      husable location
  | .declaration type name location, state, env, env', after, hown, htypes, hframes, htracks,
      hapart, h => by
    obtain ⟨hfree, htype, rfl⟩ := h
    have hname : name ∈ own := hown (by simp [Stmt.names])
    have htracks' :=
      htracks.declare (show (Local.mk name type.text location true).name ∈ own from hname) .unset
    rw [statement]
    refine ⟨env'.declare { name, type := type.text, location },
      allowedAll_singleton.mpr ⟨⟨fun slot hslot heq => ?_, hfree.unhidden⟩, ?_, rfl⟩, htracks'⟩
    -- a variable of the name in the body would be one of the program
    · obtain ⟨hnamed, -, -, -⟩ := htracks.covers
      cases env' with
      | nil => cases hslot
      | cons =>
        refine hfree.new slot ?_ heq
        rw [← hnamed]
        exact mem_filter.mpr ⟨hslot, decide_eq_true (heq ▸ hname)⟩
    · rw [entityIn_type] at htype ⊢
      exact ⟨hapart.find_eq_none (by rw [htype.2]; rfl), htype.2⟩
  | .assignment target value location, state, env, env', after, hown, htypes, hframes, htracks,
      hapart, h => by
    obtain ⟨slot, hslot, husable, rfl⟩ := h
    rw [statement]
    exact allowed_assignment hknown htypes _ (hown (by simp [Stmt.names]))
      (fun name hname => hown (by simp [Stmt.names, hname])) htracks hapart hslot husable location
  | .conditional condition body location, state, env, env', after, hown, htypes, hframes, htracks,
      hapart, h => by
    rw [Allowed] at h
    obtain ⟨husable, inner, hbody, rfl⟩ := h
    have htypes' : (Lower.opened condition state).returnTypes = types :=
      htypes ▸ (later_hoist condition).returnTypes
    exact allowed_conditional hknown htypes hframes
      (fun name hname => hown (by simp [Stmt.names, hname]))
      htracks hapart husable (fun opened hopened hapart' => allowed_block hknown none
        (fun name hname => hown (by simp [Stmt.names, hname])) htypes' (cons_ne_nil _ _)
        hopened hapart'
        hbody) location
  | .result value location, state, env, env', after, hown, htypes, hframes, htracks, hapart, h => by
    obtain ⟨⟨expected, hreturns, husable⟩, rfl⟩ := h
    rw [statement]
    exact allowed_result hknown htypes hreturns
      (fun name hname => hown (by simp [Stmt.names, hname])) htracks
      hapart husable location
  | .function .., _, _, _, _, _, _, _, _, _, h => h.elim
  | .retain name location, state, env, env', after, hown, htypes, hframes, htracks, hapart, h
  | .release name location, state, env, env', after, hown, htypes, hframes, htracks, hapart, h => by
    cases (show after = env from h)
    rw [statement]
    · exact ⟨env', allowedAll_singleton.mpr rfl, htracks⟩
    all_goals simp

/-- **The lowered form of a block is allowed where the block is allowed.** -/
theorem allowed_block (hknown : Known globals types own) (previous : Option Stmt) :
    ∀ {block : List Stmt} {state : Lowering}
      {env env' after : Env Data}, Stmt.namesOfAll block ⊆ own →
    state.returnTypes = types → state.frames ≠ [] → Tracks own state env env' → Apart globals env' →
    AllowedAll globals returns block env after →
    ∃ after', AllowedAll globals returns (Lower.block previous block state).1 env' after' ∧
      Tracks own (Lower.block previous block state).2 after after'
  | [], state, env, env', after, hown, htypes, hframes, htracks, hapart, h => by
    rw [AllowedAll] at h
    subst h
    rw [Lower.block]
    exact ⟨env', by
      rw [show (pure [] : Lower (List Stmt)) state = ([], state) from rfl, AllowedAll], htracks⟩
  | stmt :: block, state, env, env', after, hown, htypes, hframes, htracks, hapart, h => by
    rw [AllowedAll] at h
    obtain ⟨middle, hstmt, hblock⟩ := h
    have hgrown := grown_statement previous stmt state
    have hframes' : (statement previous stmt state).2.frames ≠ [] := by
      rw [← length_pos_iff, hgrown.length, length_pos_iff]
      exact hframes
    obtain ⟨middle', hfirst, hmiddle⟩ := allowed_statement hknown previous
      (fun name hname => hown (by simp [Stmt.namesOfAll, hname])) htypes hframes
      htracks hapart hstmt
    obtain ⟨after', hrest, hafter⟩ := allowed_block hknown (some stmt)
      (fun name hname => hown (by simp [Stmt.namesOfAll, hname]))
      (hgrown.returnTypes.trans htypes) hframes'
      hmiddle (hapart.allowedAll hfirst) hblock
    rw [block_cons_eq]
    exact ⟨after', hfirst.append hrest, hafter⟩

end

end Lowered

end FrontEnd.Execution
