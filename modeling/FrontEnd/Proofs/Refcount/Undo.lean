import FrontEnd.Proofs.Refcount.Simulation
import FrontEnd.Proofs.Tree.Places
import Mathlib.Logic.Function.Basic

/-!
# Undoing the counts

Making reference counts explicit only adds to a program, and what it adds can be taken out again:
the counting, and the temporaries. Each temporary gets a value once, and is read at most once; so
its value can be put back to where it is read (`Stmt.undone`). A temporary that nobody reads holds
the value of a call that stood by itself, and the call is put back as a statement. What comes out is
the program from before (`Restored`).

The main statements here are about expressions: all temporaries that are made for one are read
exactly once, by another one of them or by what is left of the expression, and with their values put
back the expression is what it was (`hoisted_hoist`).
-/

namespace FrontEnd

open List

/-! ### Putting values back -/

mutual

/-- An expression with values in the places of names. -/
def Expr.substitute (values : String → Option Expr) : Expr → Expr
  | .name n => (values n.text).getD (.name n)
  | .integer digits location => .integer digits location
  | .string text location => .string text location
  | .call function arguments location =>
    .call (function.substitute values) (Expr.substituteAll values arguments) location

/-- The same for the arguments of a call. -/
def Expr.substituteAll (values : String → Option Expr) : List Expr → List Expr
  | [] => []
  | argument :: arguments => argument.substitute values :: Expr.substituteAll values arguments

end

/-- The values of temporaries behind a statement. -/
def Stmt.given (temporary : String → Bool) (values : String → Option Expr) :
    Stmt → String → Option Expr
  | .assignment target value _ =>
    if temporary target.text then Function.update values target.text
      (some (value.substitute values)) else values
  | _ => values

/-- The values of temporaries behind some statements of a body. -/
def givenByAll (temporary : String → Bool) (values : String → Option Expr) (block : List Stmt) :
    String → Option Expr :=
  block.foldl (Stmt.given temporary) values

mutual

/-- **What is left of a statement without counting and temporaries.** The value of a temporary is
put back to where the temporary is read. If it is not read, its value is put back as a statement. -/
def Stmt.undone (temporary read : String → Bool) (values : String → Option Expr) : Stmt → List Stmt
  | .expression value location => [.expression (value.substitute values) location]
  | .declaration type name location =>
    if temporary name then [] else [.declaration type name location]
  | .assignment target value location =>
    if temporary target.text then
      if read target.text then [] else [.expression (value.substitute values) location]
    else [.assignment target (value.substitute values) location]
  | .conditional condition body location =>
    [.conditional (condition.substitute values) (undoneAll temporary read values body) location]
  | .result value location => [.result (value.substitute values) location]
  | .function name parameters returnType body location =>
    [.function name parameters returnType (undoneAll temporary read values body) location]
  | .retain .. | .release .. => []

/-- **What is left of a block without counting and temporaries**, with the values of the temporaries
in front of it. -/
def undoneAll (temporary read : String → Bool) (values : String → Option Expr) :
    List Stmt → List Stmt
  | [] => []
  | stmt :: block =>
    stmt.undone temporary read values ++ undoneAll temporary read
      (stmt.given temporary values) block

end

namespace Program

/-- The bodies of all functions, one behind the other. -/
def bodies (program : Program) : List Stmt :=
  (program.filterMap Stmt.toFunctionDef?).flatMap FunctionDef.body

/-- The names that are declared in a block. -/
def namesDeclared (block : List Stmt) : List String :=
  (Stmt.placesOfAll block).map Prod.fst

/-- The names that get a value in a block. -/
abbrev namesAssigned (block : List Stmt) : List String :=
  Refcount.Lower.assignedNamesOfAll block

/-- The names that are read in a block. -/
def namesRead (block : List Stmt) : List String :=
  (Stmt.expressionsOfAll block).flatMap Expr.names

/-- All names that occur in a program. -/
def occurring (program : Program) : List String :=
  Stmt.namesOfAll program ++
    (program.filterMap Stmt.toFunctionDef?).filterMap fun function =>
    function.returnType.map Name.text

/-- Whether a name is one of the temporaries of a lowered program: it is declared there, and does
not occur in the program from before. -/
def isTemporary (source lowered : Program) (name : String) : Bool :=
  (namesDeclared lowered.bodies).contains name && !source.occurring.contains name

/-- A lowered program without counting and temporaries. -/
def undo (source lowered : Program) : Program :=
  undoneAll (source.isTemporary lowered) (namesRead lowered.bodies).contains (fun _ => none) lowered

end Program

open Refcount in
/-- A statement and what was put back for it. They are equal, but for the place of a call whose
value on the heap nobody wants: it is put back as a statement at its own place. -/
inductive Restored (types : ReturnTypes) : Stmt → Stmt → Prop
  | same (stmt : Stmt) : Restored types stmt stmt
  | recreated {value : Expr} {location : Location} (isCall : value.isCall = true)
      (unwanted : heapFirst types value = true) :
      Restored types (.expression value location) (.expression value value.location)
  | conditional {condition : Expr} {body body' : List Stmt} {location : Location}
      (bodies : Forall₂ (Restored types) body body') :
      Restored types (.conditional condition body location) (.conditional condition body' location)
  | function {name : String} {parameters : List Parameter} {returnType : Option Name}
      {body body' : List Stmt} {location : Location}
      (bodies : Forall₂ (Restored types) body body') :
      Restored types (.function name parameters returnType body location)
        (.function name parameters returnType body' location)

/-! ### Names and blocks -/

section Substitution

variable {values values' : String → Option Expr}

mutual

theorem Expr.substitute_congr :
    ∀ {expression : Expr}, (∀ name ∈ expression.names, values name = values' name) →
      expression.substitute values = expression.substitute values'
  | .name n, h => by rw [Expr.substitute, Expr.substitute, h n.text (mem_singleton_self _)]
  | .integer .., _ => rfl
  | .string .., _ => rfl
  | .call function arguments location, h => by
    rw [Expr.names, forall_mem_append] at h
    rw [Expr.substitute, Expr.substitute, Expr.substitute_congr h.1, Expr.substituteAll_congr h.2]

theorem Expr.substituteAll_congr : ∀ {arguments : List Expr},
    (∀ name ∈ Expr.namesOfAll arguments, values name = values' name) →
    Expr.substituteAll values arguments = Expr.substituteAll values' arguments
  | [], _ => rfl
  | argument :: arguments, h => by
    rw [Expr.namesOfAll, forall_mem_append] at h
    rw [Expr.substituteAll, Expr.substituteAll, Expr.substitute_congr h.1,
      Expr.substituteAll_congr h.2]

end

mutual

theorem Expr.substitute_none :
    ∀ expression : Expr, expression.substitute (fun _ => none) = expression
  | .name _ => rfl
  | .integer .. => rfl
  | .string .. => rfl
  | .call function arguments location => by
    rw [Expr.substitute, Expr.substitute_none function, Expr.substituteAll_none arguments]

theorem Expr.substituteAll_none :
    ∀ arguments : List Expr, Expr.substituteAll (fun _ => none) arguments = arguments
  | [] => rfl
  | argument :: arguments => by
    rw [Expr.substituteAll, Expr.substitute_none argument, Expr.substituteAll_none arguments]

end

/-- An expression without names that have values is left as it is. -/
theorem Expr.substitute_eq_self {expression : Expr}
    (h : ∀ name ∈ expression.names, values name = none) :
    expression.substitute values = expression :=
  (Expr.substitute_congr h).trans expression.substitute_none

end Substitution

section Blocks

variable {temporary read : String → Bool} {values : String → Option Expr} {block : List Stmt}

theorem givenByAll_append (first second : List Stmt) :
    givenByAll temporary values (first ++ second) =
      givenByAll temporary (givenByAll temporary values first) second :=
  foldl_append

theorem undoneAll_append (first second : List Stmt) :
      undoneAll temporary read values (first ++ second) =
      undoneAll temporary read values first ++ undoneAll temporary read (givenByAll temporary values
        first) second := by
  induction first generalizing values with
  | nil => rw [nil_append, undoneAll, nil_append]; rfl
  | cons stmt first ih =>
    rw [cons_append, undoneAll, ih, undoneAll, append_assoc]
    rfl

/-- Only temporaries get values. -/
theorem givenByAll_of_not_temporary {name : String} (h : temporary name = false)
    (block : List Stmt) :
    givenByAll temporary values block name = values name := by
  induction block generalizing values with
  | nil => rfl
  | cons stmt block ih =>
    refine ih.trans ?_
    cases stmt with
    | assignment target value location =>
      rw [Stmt.given]
      split
      · next htemporary =>
        refine Function.update_of_ne ?_ _ _
        rintro rfl
        rw [h] at htemporary
        cases htemporary
      · rfl
    | expression | declaration | conditional | result | function | retain | release => rfl

/-- Counting is taken out, and nothing gets a value by it. -/
theorem undone_of_counting (h : ∀ stmt ∈ block, Execution.isCounting stmt = true) :
    undoneAll temporary read values block = [] ∧ givenByAll temporary values block = values := by
  induction block with
  | nil => exact ⟨rfl, rfl⟩
  | cons stmt block ih =>
    rw [forall_mem_cons] at h
    cases stmt with
    | retain | release => exact ih h.2
    | expression | declaration | assignment | conditional | result | function => cases h.1

end Blocks

/-! ### Expressions -/

namespace Refcount

/-- The values of temporaries behind those that set up some of them. -/
def givenByTemps (temps : List Temp) (values : String → Option Expr) : String → Option Expr :=
  temps.foldl (fun given temp =>
    Function.update given temp.place.name (some (temp.value.substitute given))) values

section Temps

variable {values : String → Option Expr} {temps : List Temp} {temporary : String → Bool}

theorem givenByTemps_append (first second : List Temp) :
    givenByTemps (first ++ second) values = givenByTemps second (givenByTemps first values) :=
  foldl_append

theorem givenByTemps_of_not_mem {name : String} (h : name ∉ temps.map (·.place.name)) :
    givenByTemps temps values name = values name := by
  induction temps generalizing values with
  | nil => rfl
  | cons temp temps ih =>
    rw [map_cons, mem_cons, not_or] at h
    exact (ih h.2).trans (Function.update_of_ne h.1 _ _)

theorem givenByAll_setups (htemporary : ∀ temp ∈ temps, temporary temp.place.name = true) :
    givenByAll temporary values (temps.flatMap Temp.setup) = givenByTemps temps values := by
  induction temps generalizing values with
  | nil => rfl
  | cons temp temps ih =>
    rw [forall_mem_cons] at htemporary
    have hgiven : givenByAll temporary values temp.setup = givenByTemps [temp] values := by
      rw [Temp.setup]
      split <;> simp [givenByAll, Stmt.given, htemporary.1, givenByTemps]
    rw [flatMap_cons, givenByAll_append, hgiven]
    exact ih htemporary.2

/-- Setting up temporaries that are read leaves nothing but their values. -/
theorem undoneAll_setups {read : String → Bool}
    (htemporary : ∀ temp ∈ temps, temporary temp.place.name = true)
    (hread : ∀ temp ∈ temps, read temp.place.name = true) :
    undoneAll temporary read values (temps.flatMap Temp.setup) = [] := by
  induction temps generalizing values with
  | nil => rfl
  | cons temp temps ih =>
    rw [forall_mem_cons] at htemporary hread
    have hundone : undoneAll temporary read values temp.setup = [] := by
      rw [Temp.setup]
      split <;> simp [undoneAll, Stmt.undone, htemporary.1, hread.1]
    rw [flatMap_cons, undoneAll_append, hundone]
    exact ih htemporary.2 hread.2

end Temps

/-- The names that temporaries read when they get their values. -/
def readByTemps (temps : List Temp) : List String :=
  temps.flatMap fun temp => temp.value.names

/-- An expression and what is left of it when its temporaries are made. All temporaries are read
exactly once, and with their values put back the expression is what it was. -/
structure Hoisted (own : List String) (temps : List Temp) (value hoisted : Expr) : Prop where
  numbered : ∀ temp ∈ temps, ∃ number, temp.place.name = TempNames.numbered number
  read : ∀ name ∉ own, (readByTemps temps ++ hoisted.names).count name =
  (temps.map (·.place.name)).count name
  restored : ∀ values : String → Option Expr, (∀ name ∈ own, values name = none) →
    hoisted.substitute (givenByTemps temps values) = value

/-- The same for the arguments of a call. -/
structure HoistedAll (own : List String) (temps : List Temp)
    (values hoisted : List Expr) : Prop where
  numbered : ∀ temp ∈ temps, ∃ number, temp.place.name = TempNames.numbered number
  read : ∀ name ∉ own,
    (readByTemps temps ++ Expr.namesOfAll hoisted).count name =
      (temps.map (·.place.name)).count name
  restored : ∀ given : String → Option Expr, (∀ name ∈ own, given name = none) →
    Expr.substituteAll (givenByTemps temps given) hoisted = values

namespace Lower

variable {own : List String} {state : Lowering} {temps : List Temp}

theorem readByTemps_append (first second : List Temp) :
    readByTemps (first ++ second) = readByTemps first ++ readByTemps second :=
  flatMap_append

/-- An expression that is left as it is. -/
theorem hoisted_self {value : Expr} (hnames : value.names ⊆ own) : Hoisted own [] value value where
  numbered := forall_mem_nil _
  read name hname := by
    rw [map_nil, count_nil, count_eq_zero]
    exact fun hmem => hname (hnames hmem)
  restored values hvalues := Expr.substitute_eq_self fun name hname => hvalues name (hnames hname)

/-- What is left of an expression names what the program names, and temporaries. -/
theorem names_subset_of_read {names taken : List String} (hown : own ⊆ taken)
    (htemps : ∀ temp ∈ temps, temp.place.name ∈ taken)
    (hread : ∀ name ∉ own,
      (readByTemps temps ++ names).count name = (temps.map (·.place.name)).count name) :
    names ⊆ taken := by
  intro name hname
  by_cases hmem : name ∈ own
  · exact hown hmem
  · have hpos : 0 < (temps.map (·.place.name)).count name := by
      rw [← hread name hmem]
      exact count_pos_iff.mpr (mem_append_right _ hname)
    obtain ⟨temp, htemp, rfl⟩ := mem_map.mp (count_pos_iff.mp hpos)
    exact htemps temp htemp

/-- Later temporaries have other names. -/
theorem givenByTemps_later {middle after : List String} (hnew : NewTemps middle after temps)
    {name : String} (hname : name ∈ middle) (values : String → Option Expr) :
    givenByTemps temps values name = values name := by
  refine givenByTemps_of_not_mem fun hmem => ?_
  obtain ⟨temp, htemp, rfl⟩ := mem_map.mp hmem
  exact hnew.free temp htemp hname

theorem hoisted_hoistArgument {argument : Expr} (hname : ∀ name, argument ≠ .name name)
    (h : Hoisted own (hoist argument state).1.2 argument (hoist argument state).1.1) :
    Hoisted own (hoistArgument argument state).1.2 argument (hoistArgument argument state).1.1 := by
  rw [hoistArgument_eq hname]
  cases (valueType state.returnTypes argument).filter isHeap with
  | none => exact h
  | some =>
    refine ⟨?_, fun name hnot => ?_, fun values hvalues => ?_⟩
    · exact forall_mem_append.mpr ⟨h.numbered, forall_mem_singleton.mpr ⟨_, rfl⟩⟩
    · have hread := h.read name hnot
      simp only [count_append] at hread
      simp only [readByTemps_append, map_append, count_append]
      change _ + (readByTemps [Temp.mk _ (hoist argument state).1.1]).count name + _ = _
      simp only [readByTemps, flatMap_singleton] at hread ⊢
      rw [hread]
      rfl
    · change ((givenByTemps (_ ++ [_]) values) _).getD _ = argument
      rw [givenByTemps_append]
      simp only [givenByTemps, foldl_cons, foldl_nil, Function.update_self, Option.getD_some]
      exact h.restored values hvalues

mutual

/-- **The temporaries of an expression are read once, and it can be restored from them.** -/
theorem hoisted_hoist : ∀ (expression : Expr)
    {state : Lowering}, expression.names ⊆ own → own ⊆ state.names.taken →
    Hoisted own (hoist expression state).1.2 expression (hoist expression state).1.1
  | .name name, state, hnames, _
  | .integer .., state, hnames, _
  | .string .., state, hnames, _ => by rw [hoist_of_not_call rfl]; exact hoisted_self hnames
  | .call function arguments location, state, hnames, hown => by
    rw [Expr.names, append_subset] at hnames
    have hnew : NewTemps state.names.taken _ (hoistArguments arguments state).1.2 :=
      newTemps_hoistArguments arguments
    have harguments := hoisted_hoistArguments arguments hnames.2 hown
    rw [hoist_call]
    refine ⟨harguments.numbered, fun name hname => ?_, fun values hvalues => ?_⟩
    · have hfunction : function.names.count name = 0 := count_eq_zero.mpr fun hmem =>
        hname (hnames.1 hmem)
      rw [← harguments.read name hname, Expr.names]
      simp only [count_append, hfunction, Nat.zero_add]
    · rw [Expr.substitute, harguments.restored values hvalues, Expr.substitute_eq_self]
      intro name hname
      rw [givenByTemps_later hnew (hown (hnames.1 hname)), hvalues name (hnames.1 hname)]

theorem hoisted_hoistArguments : ∀ (arguments : List Expr) {state : Lowering},
    Expr.namesOfAll arguments ⊆ own → own ⊆ state.names.taken →
    HoistedAll own (hoistArguments arguments state).1.2 arguments
      (hoistArguments arguments state).1.1
  | [], state, _, _ => by
    rw [hoistArguments_nil]
    exact ⟨forall_mem_nil _, fun _ _ => rfl, fun _ _ => rfl⟩
  | argument :: arguments, state, hnames, hown => by
    rw [Expr.namesOfAll, append_subset] at hnames
    rcases argument.name_or_ne with ⟨name, rfl⟩ | hname
    · have hnew : NewTemps state.names.taken _ (hoistArguments arguments state).1.2 :=
        newTemps_hoistArguments arguments
      have hrest := hoisted_hoistArguments arguments hnames.2 hown
      rw [hoistArguments_name]
      refine ⟨hrest.numbered, fun other hother => ?_, fun values hvalues => ?_⟩
      · have hzero : (Expr.name name).names.count other = 0 :=
          count_eq_zero.mpr fun hmem => hother (hnames.1 hmem)
        rw [← hrest.read other hother, Expr.namesOfAll]
        simp only [count_append, hzero, Nat.zero_add]
      · rw [Expr.substituteAll, hrest.restored values hvalues, Expr.substitute_eq_self]
        intro other hother
        rw [givenByTemps_later hnew (hown (hnames.1 hother)), hvalues other (hnames.1 hother)]
    · have hlater : state.Later (hoistArgument argument state).2 :=
        later_hoistArgument (later_hoist argument)
      have hown' := Subset.trans hown hlater.taken
      have hfirst := hoisted_hoistArgument hname (hoisted_hoist argument hnames.1 hown)
      have hrest := hoisted_hoistArguments arguments hnames.2 hown'
      have hnewFirst : NewTemps state.names.taken _ (hoistArgument argument state).1.2 :=
        newTemps_hoistArgument hname (newTemps_hoist argument _)
      have hnewRest : NewTemps (hoistArgument argument state).2.names.taken _
          (hoistArguments arguments (hoistArgument argument state).2).1.2 :=
          newTemps_hoistArguments arguments
      have hleft := names_subset_of_read hown' hnewFirst.taken hfirst.read
      rw [hoistArguments_cons hname]
      refine ⟨forall_mem_append.mpr ⟨hfirst.numbered, hrest.numbered⟩, fun other hother =>
        ?_, fun values hvalues => ?_⟩
      · have hone := hfirst.read other hother
        have hmore := hrest.read other hother
        rw [Expr.namesOfAll, readByTemps_append, map_append]
        simp only [count_append] at hone hmore ⊢
        omega
      · rw [Expr.substituteAll, givenByTemps_append]
        congr 1
        -- neither part reads a temporary of the other: the later ones are new, and `own` has none
        -- of the first
        · refine (Expr.substitute_congr fun other hother => ?_).trans
            (hfirst.restored values hvalues)
          exact givenByTemps_later hnewRest (hleft hother) _
        · refine hrest.restored _ fun other hother => ?_
          rw [givenByTemps_later hnewFirst (hown hother), hvalues other hother]

end

end Lower

end Refcount

end FrontEnd
