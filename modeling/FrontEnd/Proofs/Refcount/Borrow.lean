import FrontEnd.Proofs.Execution.Ledger
import FrontEnd.Proofs.Refcount.Shape

/-!
# Passing values without giving them away

A call does not get the references of its arguments: it borrows them. This works out if whoever
calls has something to lend, so that arguments have to be variables, or to have values that are not
on the heap (`passes`). What is left of an expression when its temporaries were made is of this kind
(`setUp_hoist`), and so are the values of the temporaries themselves, each of which uses only those
in front of it (`SetUp`).

The value of such an expression comes with one reference, unless it is a variable, whose reference
stays where it is (`safe_eval`).
-/

open List

namespace FrontEnd.Refcount

variable {types : ReturnTypes}

mutual

/-- Whether an argument can be passed as it is. -/
def passes (types : ReturnTypes) : Expr → Bool
  | .name _ => true
  | .call function arguments location =>
    !heapFirst types (.call function arguments location) && passesAll types arguments
  | _ => false

/-- Whether all arguments of a call can be passed as they are. -/
def passesAll (types : ReturnTypes) : List Expr → Bool
  | [] => true
  | argument :: arguments => passes types argument && passesAll types arguments

end

/-- Whether no call in an expression needs a temporary. -/
def flat (types : ReturnTypes) : Expr → Bool
  | .call _ arguments _ => passesAll types arguments
  | _ => true

/-- Temporaries that can be set up one after the other: the value of each is no variable, and names
only what is known by then. -/
inductive SetUp (types : ReturnTypes) : List String → List Temp → Prop
  | nil {known : List String} : SetUp types known []
  | cons {known : List String} {temp : Temp} {temps : List Temp}
      (value : flat types temp.value = true) (ne_name : ∀ name, temp.value ≠ .name name)
      (names : temp.value.names ⊆ known) (rest : SetUp types (temp.place.name :: known) temps) :
      SetUp types known (temp :: temps)

namespace SetUp

variable {known known' : List String} {temps temps' : List Temp}

theorem mono (h : SetUp types known temps) (hknown : known ⊆ known') :
    SetUp types known' temps := by
  induction h generalizing known' with
  | nil => exact .nil
  | cons hvalue hname hnames _ ih =>
    exact .cons hvalue hname (Subset.trans hnames hknown) (ih (cons_subset_cons _ hknown))

theorem append (h : SetUp types known temps)
    (h' : SetUp types (known ++ temps.map (·.place.name)) temps') :
    SetUp types known (temps ++ temps') := by
  induction h with
  | nil => simpa using h'
  | cons hvalue hname hnames _ ih =>
    refine .cons hvalue hname hnames (ih (h'.mono ?_))
    intro name
    simp only [map_cons, mem_append, mem_cons]
    tauto

end SetUp

namespace Lower

/-- What is left of an argument can be passed, if the same holds for the calls in it. -/
theorem setUp_hoistArgument {argument : Expr} {state : Lowering} {known : List String}
    (hname : ∀ name, argument ≠ .name name) (htypes : state.returnTypes = types)
    (h : SetUp types known (hoist argument state).1.2 ∧
      flat types (hoist argument state).1.1 = true ∧
      (hoist argument state).1.1.names ⊆ known ++ (hoist argument state).1.2.map (·.place.name)) :
    SetUp types known (hoistArgument argument state).1.2 ∧
      passes types (hoistArgument argument state).1.1 = true ∧
      (hoistArgument argument state).1.1.names ⊆
        known ++ (hoistArgument argument state).1.2.map (·.place.name) := by
  obtain ⟨hsetUp, hflat, hnames⟩ := h
  rw [hoistArgument_eq hname]
  subst htypes
  cases htype : (valueType state.returnTypes argument).filter isHeap with
  | some type =>
    -- the argument moves into one more temporary and its name is passed
    refine ⟨hsetUp.append (.cons hflat (hoist_ne_name hname) hnames .nil), rfl, ?_⟩
    intro name hmem
    have hname : name =
        (makeTemp (hoist argument state).1.1 type (hoist argument state).2).1.place.name :=
      mem_singleton.mp hmem
    simp [hname]
  | none =>
    refine ⟨hsetUp, ?_, hnames⟩
    -- nothing is moved: only a call whose result is not on the heap is left
    have hheap : heapFirst state.returnTypes argument = false := by
      rw [heapFirst, ← Option.isSome_filter, htype]
      rfl
    cases argument with
    | name name => exact absurd rfl (hname name)
    | integer | string => cases hheap
    | call function arguments location =>
      have hheap' : heapFirst state.returnTypes (hoist (.call function arguments location)
          state).1.1 = false := by
        rw [heapFirst, valueType_hoist]
        exact hheap
      rw [hoist_call] at hflat hheap' ⊢
      rw [passes, hheap']
      exact hflat

mutual

/-- What is left of an expression needs no more temporaries, and those that it has can be set up. -/
theorem setUp_hoist : ∀ (expression : Expr) {state : Lowering} {known : List String},
    expression.names ⊆ known → state.returnTypes = types →
    SetUp types known (hoist expression state).1.2 ∧
    flat types (hoist expression state).1.1 = true ∧
      (hoist expression state).1.1.names ⊆ known ++ (hoist expression state).1.2.map (·.place.name)
  | .call function arguments location, state, known, hnames, htypes => by
    rw [Expr.names, append_subset] at hnames
    obtain ⟨hsetUp, hpasses, harguments⟩ :=
      setUp_hoistArguments arguments hnames.2 htypes
    rw [hoist_call]
    refine ⟨hsetUp, hpasses, ?_⟩
    rw [Expr.names, append_subset]
    exact ⟨Subset.trans hnames.1 (subset_append_left _ _), harguments⟩
  | .name name, state, known, hnames, htypes
  | .integer .., state, known, hnames, htypes
  | .string .., state, known, hnames, htypes => by
    rw [hoist_of_not_call rfl]
    exact ⟨.nil, rfl, Subset.trans hnames (subset_append_left _ _)⟩

theorem setUp_hoistArguments : ∀ (arguments : List Expr) {state : Lowering} {known : List String},
    Expr.namesOfAll arguments ⊆ known → state.returnTypes = types →
    SetUp types known (hoistArguments arguments state).1.2 ∧
      passesAll types (hoistArguments arguments state).1.1 = true ∧
      Expr.namesOfAll (hoistArguments arguments state).1.1 ⊆
        known ++ (hoistArguments arguments state).1.2.map (·.place.name)
  | [], state, known, hnames, htypes => by
    rw [hoistArguments_nil]
    exact ⟨.nil, rfl, nil_subset _⟩
  | argument :: arguments, state, known, hnames, htypes => by
    rw [Expr.namesOfAll, append_subset] at hnames
    rcases argument.name_or_ne with ⟨name, rfl⟩ | hname
    · obtain ⟨hsetUp, hpasses, hrest⟩ := setUp_hoistArguments arguments hnames.2 htypes
      rw [hoistArguments_name]
      refine ⟨hsetUp, hpasses, ?_⟩
      rw [Expr.namesOfAll, append_subset]
      exact ⟨Subset.trans hnames.1 (subset_append_left _ _), hrest⟩
    · obtain ⟨hsetUp, hpasses, hfirst⟩ :=
        setUp_hoistArgument hname htypes (setUp_hoist argument hnames.1 htypes)
      -- the arguments behind may use the temporaries in front
      have hknown : Expr.namesOfAll arguments ⊆
          known ++ (hoistArgument argument state).1.2.map (·.place.name) :=
        Subset.trans hnames.2 (subset_append_left _ _)
      obtain ⟨hsetUp', hpasses', hrest⟩ := setUp_hoistArguments arguments hknown
        ((later_hoistArgument (later_hoist argument)).returnTypes.trans htypes)
      rw [hoistArguments_cons hname]
      refine ⟨hsetUp.append hsetUp', by rw [passesAll, hpasses, hpasses']; rfl, ?_⟩
      rw [Expr.namesOfAll, append_subset, map_append, ← append_assoc]
      exact ⟨Subset.trans hfirst (subset_append_left _ _), hrest⟩

end

end Lower

end FrontEnd.Refcount

namespace FrontEnd.Execution

open Refcount

/-- Calls get their arguments without the references, and their values come with one. -/
def CallsOwn (types : ReturnTypes) (call : Machine.Caller Nat Heap) : Prop :=
  ∀ name values env outer refs, (∀ value ∈ values, Backed outer refs value) →
    Safe (Books env outer refs) (call name values) fun value state =>
      Books env outer (value :: refs) state ∧
        (value.isObject = true → (types.lookup name).join.any isHeap = true)

/-- A name that can be read: the object of the variable is there. -/
def Readable (env : Env Nat) (outer : Nat → Nat) (refs : List (Value Nat)) (name : String) : Prop :=
  ∀ slot, env.find name = some slot → Backed outer refs slot.value

/-- The references that come with the value of an expression. -/
def given (expression : Expr) (value : Value Nat) : List (Value Nat) :=
  match expression with
  | .name _ => []
  | _ => [value]

section Borrow

variable {setting : Setting} {program : Program} {types : ReturnTypes}
  {call : Machine.Caller Nat Heap} {env : Env Nat} {outer : Nat → Nat} {refs : List (Value Nat)}

theorem safe_apply (hcall : CallsOwn types call) (function : Expr) (arguments : List Expr)
    (location : Location) {values : List (Value Nat)}
    (h : ∀ value ∈ values, Backed outer refs value) :
    Safe (Books env outer refs) (Machine.apply call function values) fun value state =>
      Books env outer (value :: refs) state ∧
        (value.isObject = true → heapFirst types (.call function arguments location) = true) := by
  refine Holds.apply not_miscounts_stuck ?_
  rintro function rfl
  exact hcall function.text values env outer refs h

mutual

/-- What can be passed has no reference of its own that would have to be released. -/
theorem safe_eval_passes (hcall : CallsOwn types call) : ∀ {expression : Expr},
    passes types expression = true → (∀ name ∈ expression.names, Readable env outer refs name) →
    Safe (Books env outer refs) ((counted setting program).eval call expression) fun value state =>
      Books env outer refs state ∧ Backed outer refs value
  | .name name, _, hnames => by
    rw [Machine.eval]
    exact (safe_readName (hnames _ (mem_singleton_self _))).weaken (fun _ => id) fun _ _ h =>
      ⟨h.1, h.2.2⟩
  | .call function arguments location, hpasses, hnames => by
    rw [passes, Bool.and_eq_true, Bool.not_eq_true'] at hpasses
    have harguments : ∀ name ∈ Expr.namesOfAll arguments, Readable env outer refs name :=
      fun name hname => hnames name (mem_append_right _ hname)
    rw [Machine.eval]
    refine Holds.step (safe_evalAll_passes hcall hpasses.2 harguments) fun values hvalues => ?_
    refine (safe_apply hcall function arguments location hvalues).weaken (fun _ => id) ?_
    rintro value state ⟨⟨henv, hcounts⟩, hheap⟩
    -- the value of the call is not on the heap, so nothing came with it
    have hobject : value.isObject = false := by
      rw [hpasses.1] at hheap
      simpa using hheap
    exact ⟨⟨henv, (Counts.cons_iff hobject).mp hcounts⟩, .of_not_isObject hobject⟩
  | .integer .., hpasses, _ | .string .., hpasses, _ => by cases hpasses

theorem safe_evalAll_passes (hcall : CallsOwn types call) : ∀ {arguments : List Expr},
    passesAll types arguments = true →
    (∀ name ∈ Expr.namesOfAll arguments, Readable env outer refs name) →
    Safe (Books env outer refs) ((counted setting program).evalAll call
      arguments) fun values state =>
      Books env outer refs state ∧ ∀ value ∈ values, Backed outer refs value
  | [], _, _ => by
    rw [Machine.evalAll]
    exact .pure fun _ hstate => ⟨hstate, by simp⟩
  | argument :: arguments, hpasses, hnames => by
    rw [passesAll, Bool.and_eq_true] at hpasses
    rw [Expr.namesOfAll, forall_mem_append] at hnames
    rw [Machine.evalAll]
    refine Holds.step (safe_eval_passes hcall hpasses.1 hnames.1) fun value hvalue => ?_
    refine Holds.step (safe_evalAll_passes hcall hpasses.2 hnames.2) fun values hvalues => ?_
    exact .pure fun _ hstate => ⟨hstate, forall_mem_cons.mpr ⟨hvalue, hvalues⟩⟩

end

/-- **The value of an expression comes with one reference**, unless the expression is a variable. -/
theorem safe_eval (hcall : CallsOwn types call) {expression : Expr}
    (hflat : flat types expression = true)
    (hnames : ∀ name ∈ expression.names, Readable env outer refs name) :
    Safe (Books env outer refs) ((counted setting program).eval call expression) fun value state =>
      Books env outer (given expression value ++ refs) state ∧
        Backed outer (given expression value ++ refs) value ∧
        (value.isObject = true → (∃ name, expression = .name name) ∨
          heapFirst types expression = true) := by
  cases expression with
  | name name =>
    rw [Machine.eval]
    exact (safe_readName (hnames _ (mem_singleton_self _))).weaken (fun _ => id)
      fun _ _ h => ⟨h.1, h.2.2, fun _ => .inl ⟨name, rfl⟩⟩
  | integer digits location | string text location =>
    rw [Machine.eval]
    exact (safe_create _).weaken (fun _ => id) fun _ _ h =>
      ⟨h.1, .of_mem mem_cons_self, fun _ => .inr rfl⟩
  | call function arguments location =>
    have harguments : ∀ name ∈ Expr.namesOfAll arguments, Readable env outer refs name :=
      fun name hname => hnames name (mem_append_right _ hname)
    rw [Machine.eval]
    refine Holds.step (safe_evalAll_passes hcall hflat harguments) fun values hvalues => ?_
    exact (safe_apply hcall function arguments location hvalues).weaken (fun _ => id)
      fun _ _ h => ⟨h.1, .of_mem mem_cons_self, fun hobject => .inr (h.2 hobject)⟩

end Borrow

end FrontEnd.Execution
