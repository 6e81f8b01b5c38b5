import FrontEnd.Proofs.Refcount.Restore
import Mathlib.Order.Bounds.Basic

/-!
# Names for temporaries are fresh

A name for a temporary is found by trying one number after the other (`TempNames.Finds`). The search
has no bound of its own. It ends because finitely many names are taken and different numbers have
different names, and it ends with the least number that will do (`TempNames.isLeast_nextNumber`), so
it comes to what `TempNames.fresh` gives.

Lowering gets its names by such searches and in no other way. Every step is followed by the names
that it draws from the supply (`TempNames.Draws`), and what a step declares beyond the declarations
of its source is just these (`Lower.introduces_block`). As the supply starts with the names that are
collected from the program, what is left to show is that nothing is missed there. Where a name is
mentioned is said on its own (`Stmt.Mentions`): collecting leaves out the types that functions
return, and these are built in.
-/

namespace FrontEnd

open FunctionDef

namespace TempNames

variable {names after middle : TempNames} {name : String} {new rest : List String}

/-! ### Looking for a name -/

/-- **The search for a name.** The next number is tried. If its name is taken, the search goes on
behind it. -/
inductive Finds : TempNames → String → TempNames → Prop
  | found {names : TempNames} (hfree : numbered (names.counter + 1) ∉ names.taken) :
    Finds names (numbered (names.counter + 1)) ⟨numbered (names.counter + 1) :: names.taken,
      names.counter + 1⟩
  | again {names after : TempNames} {name : String}
    (htaken : numbered (names.counter + 1) ∈ names.taken)
    (h : Finds ⟨names.taken, names.counter + 1⟩ name after) : Finds names name after

/-- The next number is the least one behind the counter whose name is free. -/
theorem isLeast_nextNumber (names : TempNames) :
    IsLeast { number | names.counter < number ∧ numbered number ∉ names.taken }
      names.nextNumber := by
  obtain ⟨number, hnumber, hfree⟩ := names.exists_free
  cases hfind : (List.range' (names.counter + 1) (names.taken.length + 1)).find?
      fun number => !names.taken.contains (numbered number) with
  | none =>
    have htaken := List.find?_eq_none.mp hfind number hnumber
    simp [hfree] at htaken
  | some least =>
    have hnext : names.nextNumber = least := by simp only [nextNumber, hfind, Option.getD_some]
    obtain ⟨hleast, hmem, hbefore⟩ := List.find?_range'_eq_some.mp hfind
    rw [hnext]
    refine ⟨⟨(List.mem_range'_1.mp hmem).1, by simpa using hleast⟩, ?_⟩
    rintro other ⟨hlt, hother⟩
    by_contra hless
    have htaken := hbefore other hlt (by omega)
    simp [hother] at htaken

/-- A number whose name is taken can be skipped. -/
theorem fresh_skip (h : numbered (names.counter + 1) ∈ names.taken) :
    fresh ⟨names.taken, names.counter + 1⟩ = names.fresh := by
  have hsame : nextNumber ⟨names.taken, names.counter + 1⟩ = names.nextNumber := by
    refine (isLeast_nextNumber _).unique ?_
    obtain ⟨⟨hlt, hfree⟩, hleast⟩ := names.isLeast_nextNumber
    have hne : names.nextNumber ≠ names.counter + 1 := fun heq => hfree (heq ▸ h)
    refine ⟨⟨?_, hfree⟩, fun other hother => hleast ⟨?_, hother.2⟩⟩
    · change names.counter + 1 < names.nextNumber
      omega
    · have hother : names.counter + 1 < other := hother.1
      omega
  simp only [fresh, hsame]

/-- **The search ends**, and with what the supply gives. -/
theorem finds_iff : names.Finds name after ↔ names.fresh = (name, after) := by
  constructor
  · intro h
    induction h with
    | @found names hfree =>
      have hnext : names.nextNumber = names.counter + 1 :=
        names.isLeast_nextNumber.unique ⟨⟨Nat.lt_succ_self _, hfree⟩, fun _ hother => hother.1⟩
      simp only [fresh, hnext]
    | again htaken _ ih => rw [← ih, fresh_skip htaken]
  · intro h
    -- the induction is on how far the number that will do is away
    induction hdistance : names.nextNumber - names.counter using Nat.strong_induction_on
      generalizing names with
    | _ distance ih =>
      by_cases htaken : numbered (names.counter + 1) ∈ names.taken
      · have hskip := fresh_skip htaken
        have hsame : nextNumber ⟨names.taken, names.counter + 1⟩ = names.nextNumber :=
          congrArg (·.2.counter) hskip
        have hlt := names.isLeast_nextNumber.1.1
        exact .again htaken (ih _ (by rw [hsame]; change _ - (names.counter + 1) < _; omega)
          (hskip.trans h) rfl)
      · have hnext : names.nextNumber = names.counter + 1 :=
          names.isLeast_nextNumber.unique ⟨⟨Nat.lt_succ_self _, htaken⟩, fun _ hother => hother.1⟩
        simp only [fresh, hnext] at h
        obtain ⟨rfl, rfl⟩ := Prod.mk.inj h
        exact .found htaken

/-! ### Calls in a row -/

/-- The names that a number of calls in a row give, and the supply behind them. -/
def drawn : Nat → TempNames → List String × TempNames
  | 0, names => ([], names)
  | calls + 1, names =>
    (names.fresh.1 :: (drawn calls names.fresh.2).1, (drawn calls names.fresh.2).2)

/-- Names that some calls in a row give. -/
def Draws (names : TempNames) (new : List String) (after : TempNames) : Prop :=
  ∃ calls, drawn calls names = (new, after)

theorem Draws.refl (names : TempNames) : names.Draws [] names := ⟨0, rfl⟩

theorem Draws.trans (h : names.Draws new middle) (h' : middle.Draws rest after) :
    names.Draws (new ++ rest) after := by
  obtain ⟨calls, h⟩ := h
  obtain ⟨more, h'⟩ := h'
  refine ⟨calls + more, ?_⟩
  induction calls generalizing names new with
  | zero =>
    obtain ⟨rfl, rfl⟩ := Prod.mk.inj h
    rwa [Nat.zero_add]
  | succ calls ih =>
    obtain ⟨rfl, hmiddle⟩ := Prod.mk.inj h
    have hrest := ih (Prod.ext rfl hmiddle)
    rw [Nat.succ_add, drawn, hrest]
    rfl

/-- **Names that were drawn were free, and no two are the same.** -/
theorem drawn_fresh (calls : Nat) (names : TempNames) : (drawn calls names).1.Nodup ∧
      ∀ name ∈ (drawn calls names).1, name ∉ names.taken ∧ ∃ number, name = numbered number := by
  induction calls generalizing names with
  | zero => exact ⟨.nil, List.forall_mem_nil _⟩
  | succ calls ih =>
    obtain ⟨hnodup, hfree⟩ := ih names.fresh.2
    rw [drawn, List.nodup_cons, List.forall_mem_cons]
    refine ⟨⟨fun hmem => (hfree _ hmem).1 List.mem_cons_self, hnodup⟩,
      ⟨names.numbered_nextNumber_not_mem, _, rfl⟩, ?_⟩
    exact fun name hname =>
      ⟨fun hmem => (hfree name hname).1 (List.mem_cons_of_mem _ hmem), (hfree name hname).2⟩

end TempNames

namespace Refcount

open Program Execution TempNames
open scoped List

/-! ### What lowering draws -/

namespace Lower

variable {state : Lowering} {source : List Stmt}

theorem draws_makeTemp (value : Expr) (type : String) :
    state.names.Draws [(makeTemp value type state).1.place.name]
      (makeTemp value type state).2.names :=
  ⟨1, rfl⟩

theorem draws_hoistArgument {argument : Expr} (hname : ∀ name, argument ≠ .name name)
    (h : state.names.Draws ((hoist argument state).1.2.map (·.place.name))
      (hoist argument state).2.names) :
    state.names.Draws ((hoistArgument argument state).1.2.map (·.place.name))
      (hoistArgument argument state).2.names := by
  rw [hoistArgument_eq hname]
  cases (valueType state.returnTypes argument).filter isHeap with
  | none => exact h
  | some type =>
    dsimp only
    rw [List.map_append]
    exact h.trans (draws_makeTemp _ type)

mutual

/-- The temporaries of an expression have the names that were drawn for it. -/
theorem draws_hoist : ∀ (expression : Expr) {state : Lowering},
    state.names.Draws ((hoist expression state).1.2.map (·.place.name))
      (hoist expression state).2.names
  | .call function arguments location, state => by
    rw [hoist_call]
    exact draws_hoistArguments arguments
  | .name .., state | .integer .., state | .string .., state => by
    rw [hoist_of_not_call rfl]
    exact .refl _

theorem draws_hoistArguments : ∀ (arguments : List Expr) {state : Lowering},
    state.names.Draws ((hoistArguments arguments state).1.2.map (·.place.name))
      (hoistArguments arguments state).2.names
  | [], state => by
    rw [hoistArguments_nil]
    exact .refl _
  | argument :: arguments, state => by
    rcases argument.name_or_ne with ⟨name, rfl⟩ | hname
    · rw [hoistArguments_name]
      exact draws_hoistArguments arguments
    · rw [hoistArguments_cons hname, List.map_append]
      exact (draws_hoistArgument hname (draws_hoist argument)).trans
        (draws_hoistArguments arguments)

end

/-- **What lowering declares** is what the source declares, and one temporary for each name that is
drawn. -/
def Introduces (source : List Stmt) (state : Lowering) (lowered : List Stmt × Lowering) : Prop :=
  ∃ new, state.names.Draws new lowered.2.names ∧
    (namesDeclared lowered.1).Perm (namesDeclared source ++ new)

theorem introduces_self (source : List Stmt) : Introduces source state (source, state) :=
  ⟨[], .refl _, by rw [List.append_nil]⟩

/-- A statement that declares nothing: its temporaries come first, then its core, and nothing is
declared behind. -/
theorem introduces_hoisted (value : Expr) {core back : List Stmt} {after : Lowering}
    (hsource : namesDeclared source = [])
    (hcore : (hoist value state).2.names.Draws (namesDeclared core) after.names)
    (hback : namesDeclared back = []) :
    Introduces source state
      ((hoist value state).1.2.flatMap Temp.setup ++ core ++ back, after) := by
  refine ⟨_, (draws_hoist value).trans hcore, ?_⟩
  simp [namesDeclared_append, (names_of_setups _).1, hsource, hback]

theorem namesDeclared_setup (temp : Temp) : namesDeclared temp.setup = [temp.place.name] := by
  simpa using (names_of_setups [temp]).1

theorem introduces_expression (value : Expr) (location : Location) :
    Introduces [.expression value location] state (expression value location state) := by
  have hback := (names_of_counting (counting_releaseTemps (hoist value state).1.2)).1
  rw [expression_eq]
  split
  · next type _ _ =>
    refine introduces_hoisted value rfl ?_ hback
    rw [namesDeclared_append, namesDeclared_setup]
    exact draws_makeTemp _ type
  · exact introduces_hoisted value rfl (.refl _) hback

theorem introduces_assignment (fresh : Bool) (target : Name) (value : Expr) (location : Location) :
    Introduces [.assignment target value location] state (assignment fresh target value
      location state) := by
  have hback := (names_of_counting (counting_releaseTemps (hoist value state).1.2)).1
  rw [assignment_eq]
  split
  · exact introduces_hoisted value rfl (.refl _) hback
  · split
    · exact introduces_hoisted value rfl (.refl _) hback
    · exact introduces_hoisted value rfl (.refl _) hback
  · next v _ =>
    refine introduces_hoisted value rfl ?_ hback
    rw [namesDeclared_append, namesDeclared_setup]
    exact draws_makeTemp _ v.type

theorem introduces_result (value : Expr) (location : Location) :
    Introduces [.result value location] state (result value location state) := by
  have hreleases (keep : Option String) : namesDeclared (state.frames.releaseAll keep) = [] :=
    (names_of_counting (counting_releaseAll state.frames keep)).1
  rcases value.name_or_ne with ⟨name, rfl⟩ | hname
  · refine ⟨[], .refl _, ?_⟩
    rw [result, resultName_eq, namesDeclared_append, namesDeclared_append, hreleases]
    split <;> rfl
  · have hback := (names_of_counting (counting_releaseTemps (hoist value state).1.2)).1
    have hend (value' : Expr) : namesDeclared (releaseTemps (hoist value state).1.2 ++
        (state.frames.releaseAll none ++ [.result value' location])) = [] := by
      rw [namesDeclared_append, namesDeclared_append, hback, hreleases]
      rfl
    rw [result_of_ne_name hname, resultValue_eq hname]
    cases valueType state.returnTypes value with
    | none =>
      have hkept : Introduces [.result value location] state (_ ++ [] ++ _, _) :=
        introduces_hoisted value rfl (.refl _) (hend (hoist value state).1.1)
      simpa only [List.append_assoc] using hkept
    | some type =>
      have hmoved : Introduces [.result value location] state (_ ++ Temp.setup _ ++ _, _) :=
        introduces_hoisted value rfl
          (namesDeclared_setup _ ▸ draws_makeTemp (hoist value state).1.1 type)
          (hend (makeTemp (hoist value state).1.1 type (hoist value state).2).1.use)
      simpa only [List.append_assoc] using hmoved

theorem namesDeclared_ended (returned : Bool) (lowered : List Stmt) (frames : Frames) :
    namesDeclared (if returned then lowered else lowered ++ frames.releaseInnermost) =
      namesDeclared lowered := by
  have hreleases : namesDeclared frames.releaseInnermost = [] :=
    (names_of_counting (counting_releases _)).1
  split
  · rfl
  · rw [namesDeclared_append, hreleases, List.append_nil]

theorem append_append_perm (first new second more : List String) :
    first ++ new ++ (second ++ more) ~ first ++ second ++ (new ++ more) := by
  rw [List.append_assoc, List.append_assoc]
  exact List.Perm.append_left _ (List.perm_append_comm_assoc _ _ _)

mutual

theorem introduces_statement (previous : Option Stmt) : ∀ (stmt : Stmt) {state : Lowering},
    Introduces [stmt] state (statement previous stmt state)
  | .expression value location, state => by
    rw [statement]
    exact introduces_expression value location
  | .declaration type name location, state => by
    rw [statement]
    exact ⟨[], .refl _, .refl _⟩
  | .assignment target value location, state => by
    rw [statement]
    exact introduces_assignment _ target value location
  | .conditional condition body location, state => by
    have hbody : Introduces body (opened condition state) _ := introduces_block none body
    obtain ⟨new, hdraws, hperm⟩ := hbody
    have hconditional (condition : Expr) (body : List Stmt) :
        namesDeclared [.conditional condition body location] = namesDeclared body := by
      simp [namesDeclared, Stmt.placesOfAll, Stmt.places]
    rw [statement_conditional_eq]
    refine ⟨_, (draws_hoist condition).trans hdraws, ?_⟩
    dsimp only
    rw [namesDeclared_append, (names_of_setups _).1, hconditional, hconditional,
      namesDeclared_ended]
    -- the temporaries of the condition come before what the body declares
    exact (List.Perm.append_left _ hperm).trans (List.perm_append_comm_assoc _ _ _)
  | .result value location, state => by
    rw [statement]
    exact introduces_result value location
  | .function .., state | .retain .., state | .release .., state => by
    rw [statement] <;> first | exact introduces_self _ | simp

/-- **A body that is lowered** declares its variables and, under the names that are drawn,
temporaries. -/
theorem introduces_block (previous : Option Stmt) : ∀ (source : List Stmt) {state : Lowering},
    Introduces source state (block previous source state)
  | [], state => by
    rw [block]
    exact introduces_self []
  | stmt :: source, state => by
    have hfirst : Introduces [stmt] state _ := introduces_statement previous stmt
    obtain ⟨new, hdraws, hperm⟩ := hfirst
    have hrest : Introduces source (statement previous stmt state).2 _ :=
      introduces_block (some stmt) source
    obtain ⟨more, hmore, hrest⟩ := hrest
    rw [block_cons_eq]
    refine ⟨new ++ more, hdraws.trans hmore, ?_⟩
    rw [namesDeclared_append, ← List.singleton_append, namesDeclared_append]
    exact (hperm.append hrest).trans (append_append_perm _ _ _ _)

end

end Lower

/-- A function draws the names that its body does: the references that its parameters take declare
nothing. -/
theorem Context.introduces_lowerFunction (context : Context) (function : FunctionDef) :
    ∃ new, context.names.Draws new (context.lowerFunction function).2.names ∧
      namesDeclared (context.lowerFunction function).1.body ~ namesDeclared
        function.body ++ new := by
  have hbody : Lower.Introduces function.body (.start context function) _ :=
    Lower.introduces_block none function.body
  obtain ⟨new, hdraws, hperm⟩ := hbody
  refine ⟨new, hdraws, ?_⟩
  rw [Context.lowerFunction_eq]
  dsimp only
  rw [namesDeclared_append, (names_of_counting (List.forall_mem_map.mpr fun _ _ => rfl)).1,
    List.nil_append, Lower.namesDeclared_ended]
  exact hperm

/-- **Lowering a file** draws names for one function after the other. -/
theorem Context.introduces_lower (context : Context) (program : Program) :
    ∃ new, context.names.Draws new (context.lower program).2.names ∧
      namesDeclared (bodies (context.lower program).1) ~ namesDeclared program.bodies ++ new := by
  induction program generalizing context with
  | nil => exact ⟨[], .refl _, .refl _⟩
  | cons stmt program ih =>
    cases hfunction : stmt.toFunctionDef? with
    | none =>
      obtain ⟨new, hdraws, hperm⟩ := ih context
      refine ⟨new, ?_⟩
      simpa only [Context.lower, bodies, hfunction, List.filterMap_cons] using ⟨hdraws, hperm⟩
    | some function =>
      obtain ⟨new, hdraws, hperm⟩ := context.introduces_lowerFunction function
      obtain ⟨more, hmore, hrest⟩ := ih (context.lowerFunction function).2
      refine ⟨new ++ more, ?_⟩
      simp only [Context.lower, bodies, hfunction, List.filterMap_cons, toFunctionDef?_toStmt,
        List.flatMap_cons, namesDeclared_append]
      exact ⟨hdraws.trans hmore, (hperm.append hrest).trans (Lower.append_append_perm _ _ _ _)⟩

end Refcount

/-! ### Where names are mentioned -/

/-- **A name is mentioned in an expression**: the expression is the name, or calls or passes one
where it is. -/
inductive Expr.Mentions (name : String) : Expr → Prop
  | name (location : Location) : Mentions name (.name ⟨name, location⟩)
  | callee {callee : Expr} (arguments : List Expr) (location : Location)
    (h : Mentions name callee) :
    Mentions name (.call callee arguments location)
  | argument {callee argument : Expr} {arguments : List Expr} {location : Location}
    (hmem : argument ∈ arguments) (h : Mentions name argument) :
    Mentions name (.call callee arguments location)

/-- **A name is mentioned in a statement**: as a variable, a parameter, a function or a type, or in
an expression, here or in a body. -/
inductive Stmt.Mentions (name : String) : Stmt → Prop
  | expression {value : Expr} (location : Location) (h : value.Mentions name) :
    Mentions name (.expression value location)
  | declared (type : Name) (location : Location) : Mentions name (.declaration type name location)
  | type (declared : String) (location place : Location) :
    Mentions name (.declaration ⟨name, place⟩ declared location)
  | target (value : Expr) (location place : Location) :
    Mentions name (.assignment ⟨name, place⟩ value location)
  | assigned (target : Name) {value : Expr} (location : Location) (h : value.Mentions name) :
    Mentions name (.assignment target value location)
  | condition {condition : Expr} (body : List Stmt) (location : Location)
    (h : condition.Mentions name) :
    Mentions name (.conditional condition body location)
  | branch (condition : Expr) {body : List Stmt} {stmt : Stmt} (location : Location)
    (hmem : stmt ∈ body) (h : Mentions name stmt) :
    Mentions name (.conditional condition body location)
  | result {value : Expr} (location : Location) (h : value.Mentions name) :
    Mentions name (.result value location)
  | function (parameters : List Parameter) (returnType : Option Name) (body : List Stmt)
    (location : Location) :
    Mentions name (.function name parameters returnType body location)
  | parameter (function : String) {parameters : List Parameter} {parameter : Parameter}
    (returnType : Option Name) (body : List Stmt) (location : Location)
    (hmem : parameter ∈ parameters) (h : parameter.name.text = name ∨ parameter.type.text = name) :
    Mentions name (.function function parameters returnType body location)
  | returned (function : String) (parameters : List Parameter) (place : Location) (body : List Stmt)
    (location : Location) :
    Mentions name (.function function parameters (some ⟨name, place⟩) body location)
  | body (function : String) (parameters : List Parameter) (returnType : Option Name)
    {body : List Stmt} {stmt : Stmt} (location : Location) (hmem : stmt ∈ body)
    (h : Mentions name stmt) :
    Mentions name (.function function parameters returnType body location)
  | retain (location : Location) : Mentions name (.retain name location)
  | release (location : Location) : Mentions name (.release name location)

section Mentions

open Execution

variable {name : String} {value argument : Expr} {arguments : List Expr} {stmt : Stmt}
  {block : List Stmt} {globals : String → Option Entity} {returns : Option Ty}
  {functions : List FunctionDef}

theorem Expr.mem_namesOfAll (hmem : argument ∈ arguments) (h : name ∈ argument.names) :
    name ∈ Expr.namesOfAll arguments := by
  induction arguments with
  | nil => cases hmem
  | cons first arguments ih =>
    rw [Expr.namesOfAll, List.mem_append]
    rcases List.mem_cons.mp hmem with rfl | hmem
    · exact .inl h
    · exact .inr (ih hmem)

theorem Stmt.mem_namesOfAll (hmem : stmt ∈ block) (h : name ∈ stmt.names) :
    name ∈ Stmt.namesOfAll block := by
  induction block with
  | nil => cases hmem
  | cons first block ih =>
    rw [Stmt.namesOfAll, List.mem_append]
    rcases List.mem_cons.mp hmem with rfl | hmem
    · exact .inl h
    · exact .inr (ih hmem)

/-- Collecting reaches every name of an expression. -/
theorem Expr.Mentions.mem_names (h : value.Mentions name) : name ∈ value.names := by
  induction h with
  | name => exact List.mem_singleton_self _
  | callee arguments location _ ih => exact List.mem_append_left _ ih
  | argument hmem _ ih => exact List.mem_append_right _ (Expr.mem_namesOfAll hmem ih)

theorem Execution.AllowedAll.of_mem {env after : Env Data}
    (h : AllowedAll globals returns block env after) (hmem : stmt ∈ block) :
    ∃ before behind, Allowed globals returns stmt before behind := by
  induction block generalizing env with
  | nil => cases hmem
  | cons first block ih =>
    rw [AllowedAll] at h
    obtain ⟨middle, hfirst, hrest⟩ := h
    rcases List.mem_cons.mp hmem with rfl | hmem
    · exact ⟨env, middle, hfirst⟩
    · exact ih hrest hmem

/-- **Collecting reaches every name of an allowed body.** There are no functions in it, so no types
that functions return. -/
theorem Stmt.Mentions.mem_names {env after : Env Data}
    (h : stmt.Mentions name) (hallowed : Allowed globals returns stmt env after) :
    name ∈ stmt.names := by
  induction h generalizing env after with
  | expression _ h | result _ h => exact h.mem_names
  | declared | target | retain | release => exact List.mem_cons_self
  | type => exact List.mem_cons_of_mem _ List.mem_cons_self
  | assigned _ _ h => exact List.mem_cons_of_mem _ h.mem_names
  | condition _ _ h => exact List.mem_append_left _ h.mem_names
  | branch _ _ hmem _ ih =>
    obtain ⟨-, inner, hbody, -⟩ := hallowed
    obtain ⟨_, _, hstmt⟩ := hbody.of_mem hmem
    exact List.mem_append_right _ (Stmt.mem_namesOfAll hmem (ih hstmt))
  | function | parameter | returned | body => exact hallowed.elim

/-- Of what a function of a file mentions, collecting leaves out the type that the function
returns. -/
theorem FunctionDef.mem_names_of_mentions {function : FunctionDef}
    (h : function.toStmt.Mentions name) (hallowed : AllowedFunction functions function) :
    name ∈ function.toStmt.names ∨ ∃ type, function.returnType = some type ∧ type.text = name := by
  obtain ⟨after, hbody⟩ := hallowed.body
  obtain ⟨called, parameters, returnType, body, location⟩ := function
  cases h with
  | function => exact .inl List.mem_cons_self
  | parameter _ _ _ _ hmem h =>
    refine .inl (List.mem_append_left _
      (List.mem_cons_of_mem _ (List.mem_flatMap.mpr ⟨_, hmem, ?_⟩)))
    rcases h with rfl | rfl <;> simp
  | returned => exact .inr ⟨_, rfl, rfl⟩
  | body _ _ _ _ hmem h =>
    obtain ⟨_, _, hstmt⟩ := hbody.of_mem hmem
    exact .inl (List.mem_append_right _ (Stmt.mem_namesOfAll hmem (h.mem_names hstmt)))

/-- A name with a number is mentioned in a file only if it was collected: the types that functions
return are built in. -/
theorem mem_namesOfAll_of_mentions (hallowed : AllowedFile functions) {number : Nat}
    (hmem : stmt ∈ functions.map toStmt) (h : stmt.Mentions (TempNames.numbered number)) :
    TempNames.numbered number ∈ Stmt.namesOfAll (functions.map toStmt) := by
  refine Stmt.mem_namesOfAll hmem ?_
  obtain ⟨function, hfunction, rfl⟩ := List.mem_map.mp hmem
  rcases mem_names_of_mentions h (hallowed.each function hfunction) with hname
    | ⟨type, hreturn, htype⟩
  · exact hname
  · have hbuiltin :=
      Scope.lookup_builtin_of_basic
        ((hallowed.wellFormed function hfunction).basicReturn type hreturn)
    rw [htype, lookup_builtin_numbered] at hbuiltin
    cases hbuiltin

end Mentions

open TempNames in
/-- The search for a name ends, with the least number behind the counter whose name is not taken. -/
theorem Refcount.Context.tempName_spec (context : Context) : ∃ number,
    IsLeast { number | context.names.counter < number ∧ numbered number ∉ context.names.taken }
      number ∧
    context.tempName = (numbered number,
      { context with names := ⟨numbered number :: context.names.taken, number⟩ }) ∧
    ∀ name after, context.names.Finds name after ↔
      context.tempName = (name, { context with names := after }) := by
  refine ⟨context.names.nextNumber, context.names.isLeast_nextNumber, rfl, fun name after => ?_⟩
  rw [finds_iff]
  constructor
  · intro h
    rw [Context.tempName, h]
  · intro h
    obtain ⟨hname, hafter⟩ := Prod.mk.inj h
    exact Prod.ext hname (congrArg Context.names hafter)

open TempNames Program Refcount Execution in
/-- **Temporaries are fresh.** In every context the search for a name ends, and with the least
number behind the counter whose name is not taken; names that are drawn one after the other are
pairwise distinct, and none was taken before. When a checked program is lowered, it declares what it
declared before and the names of some number of draws from the supply that starts with the names of
the program, and none of these is mentioned anywhere in the program. -/
theorem temporaries_fresh :
    (∀ context : Context, ∃ number,
      IsLeast { number | context.names.counter < number ∧ numbered number ∉ context.names.taken }
        number ∧
      context.tempName = (numbered number,
        { context with names := ⟨numbered number :: context.names.taken, number⟩ }) ∧
      ∀ name after, context.names.Finds name after ↔
        context.tempName = (name, { context with names := after })) ∧
    (∀ calls names, (drawn calls names).1.Nodup ∧
      ∀ name ∈ (drawn calls names).1, name ∉ names.taken) ∧
    ∀ program checked : Program, program.check.result = .ok checked → ∃ calls,
      (namesDeclared (lower checked).bodies).Perm
        (namesDeclared checked.bodies ++ (drawn calls (Context.ofProgram checked).names).1) ∧
      ∀ name ∈ (drawn calls (Context.ofProgram checked).names).1, ∀ stmt ∈ checked,
        ¬ stmt.Mentions name := by
  refine ⟨Context.tempName_spec, fun calls names => ?_, fun program checked h => ?_⟩
  · obtain ⟨hnodup, hfree⟩ := drawn_fresh calls names
    exact ⟨hnodup, fun name hname => (hfree name hname).1⟩
  · rw [Ordered.check_eq_direct_check] at h
    obtain ⟨functions, kept, rfl, rfl, hfile⟩ := Direct.check_eq_ok h
    obtain ⟨new, ⟨calls, hdrawn⟩, hperm⟩ :=
      (Context.ofProgram (kept.map toStmt)).introduces_lower (kept.map toStmt)
    refine ⟨calls, by rw [hdrawn]; exact hperm, fun name hname stmt hmem hmentions => ?_⟩
    obtain ⟨hfree, number, rfl⟩ := (drawn_fresh calls _).2 name hname
    exact hfree (mem_namesOfAll_of_mentions (allowedFile_checked hfile) hmem hmentions)

theorem eq_ok_of_toOption {ε α : Type} {result : Except ε α} {value : α}
    (h : result.toOption = some value) :
    result = .ok value := by
  cases result with
  | error => cases h
  | ok => exact congrArg Except.ok (Option.some.inj h)

/-- A body whose variable has the name that the first temporary would have. -/
def namedLikeTemporary : String :=
  "function main() \x7bif TRUE \x7bString tempvar1 = input(); print(tempvar1); print(\"\");\x7d\x7d"

open TempNames Program Refcount in
theorem temporaries_fresh_namedLikeTemporary : ∃ program checked,
    parse (tokenize namedLikeTemporary) = .ok program ∧ program.check.result = .ok checked ∧
    namesDeclared (lower checked).bodies = ["tempvar1", "tempvar2"] ∧
    ∃ calls, ["tempvar1", "tempvar2"].Perm
        (namesDeclared checked.bodies ++ (drawn calls (Context.ofProgram checked).names).1) ∧
      ∀ name ∈ (drawn calls (Context.ofProgram checked).names).1, ∀ stmt ∈ checked,
      ¬ stmt.Mentions name := by
  have hwithin :
      (Lexer.ofSource namedLikeTemporary).itemsWithin 100 = tokenize namedLikeTemporary :=
    Lexer.itemsWithin_eq (by decide +kernel)
  have hlowered :
      ((parse (tokenize namedLikeTemporary)).toOption.bind fun program =>
        program.check.result.toOption.map fun checked =>
          namesDeclared (lower checked).bodies) = some ["tempvar1", "tempvar2"] := by
    rw [← hwithin]
    decide +kernel
  obtain ⟨program, hparse, hlowered⟩ := Option.bind_eq_some_iff.mp hlowered
  obtain ⟨checked, hcheck, hdeclared⟩ := Option.map_eq_some_iff.mp hlowered
  have hcheck := eq_ok_of_toOption hcheck
  refine ⟨program, checked, eq_ok_of_toOption hparse, hcheck, hdeclared, ?_⟩
  rw [← hdeclared]
  exact temporaries_fresh.2.2 program checked hcheck

end FrontEnd
