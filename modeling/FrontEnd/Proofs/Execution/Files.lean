import FrontEnd.Proofs.Execution.Plain

/-!
# Programs that are lists of functions

Two programs with functions that go together one by one, each pair with one head, are compared by
their bodies alone: if bodies do the same as soon as the functions they call do, then calls do the
same for every bound on the depth of calls (`callersAgree_of_bodies`).
-/

namespace FrontEnd.Execution

open Machine List

variable {state : State Data Unit} {setting : Setting} {program : Program}
  {values : List (Value Data)} {parameters : List Parameter}

theorem functions_of_file (functions : List FunctionDef) :
    (functions.map FunctionDef.toStmt).filterMap Stmt.toFunctionDef? = functions := by
  simp [filterMap_map, Function.comp_def]

theorem definition?_eq {ρ σ : Type} (memory : Memory ρ σ) (setting : Setting)
    (functions : List FunctionDef) (name : String) :
    definition? ⟨memory, setting, functions.map FunctionDef.toStmt⟩ name =
      functions.find? (·.name = name) := by
  rw [definition?, functions_of_file]

/-- Two functions with one head. -/
structure SameHead (function other : FunctionDef) : Prop where
  name : other.name = function.name
  parameters : other.parameters = function.parameters
  returnType : other.returnType = function.returnType

section Pairs

variable {functions others : List FunctionDef} {R : FunctionDef → FunctionDef → Prop}
  {excused : Halt → Prop}

/-- The two functions of a name. -/
theorem find?_forall₂ (hhead : ∀ {function other}, R function other → SameHead function other)
    (h : Forall₂ R functions others) (name : String) :
    (functions.find? (·.name = name) = none ∧ others.find? (·.name = name) = none) ∨
    ∃ function other, functions.find? (·.name = name) = some function ∧
      others.find? (·.name = name) = some other ∧ function ∈ functions ∧ R function other := by
  induction h with
  | nil => exact .inl ⟨rfl, rfl⟩
  | @cons function other functions others hfirst _ ih =>
    by_cases hname : function.name = name
    · refine .inr ⟨function, other, ?_, ?_, mem_cons_self, hfirst⟩
      · exact find?_cons_of_pos (by simpa using hname)
      · exact find?_cons_of_pos (by simpa [(hhead hfirst).name] using hname)
    · rw [find?_cons_of_neg (by simpa using hname),
        find?_cons_of_neg (by simpa [(hhead hfirst).name] using hname)]
      rcases ih with hnone | ⟨found, found', hfound, hfound', hmem, hR⟩
      · exact .inl hnone
      · exact .inr ⟨found, found', hfound, hfound', mem_cons_of_mem _ hmem, hR⟩

variable {setting : Setting}

/-- Outside of bodies, names mean the same. -/
theorem global?_eq_of_forall₂
    (hhead : ∀ {function other}, R function other → SameHead function other)
    (h : Forall₂ R functions others) (name : String) :
    (plainFile setting others).global? name = (plainFile setting functions).global? name := by
  unfold global?
  rw [definition?_eq, definition?_eq]
  rcases find?_forall₂ hhead h name with ⟨hbefore, hafter⟩
    | ⟨function, other, hbefore, hafter, -, -⟩
  · rw [hbefore, hafter]
  · rw [hbefore, hafter]
    rfl

/-- **Calls do the same if bodies do**, as soon as the functions that the bodies call do the
same. -/
theorem callersAgree_of_bodies {strategy strategy' : Machine.Strategy Data Unit}
    (hhead : ∀ {function other}, R function other → SameHead function other)
    (h : Forall₂ R functions others)
    (hbody : ∀ depth function other values, function ∈ functions → R function other →
      CallersAgree excused ((plainFile setting functions).call strategy depth)
        ((plainFile setting others).call strategy' depth) →
      values.length = function.parameters.length →
      Matches excused (Fixed (Env.ofArguments function.parameters values)
          (Env.ofArguments function.parameters values))
        ((plainFile setting functions).execAll
          (strategy ((plainFile setting functions).call strategy depth)) function.body)
        ((plainFile setting others).execAll
          (strategy' ((plainFile setting others).call strategy' depth)) other.body)
        fun _ _ => True) :
    ∀ depth, CallersAgree excused ((plainFile setting functions).call strategy depth)
      ((plainFile setting others).call strategy' depth) := by
  -- by induction on the bound: bodies agree if calls do that are nested one level less
  intro depth name values env env'
  cases hbuiltin : (plainFile setting functions).builtin? name values with
  | some =>
    obtain ⟨action', hbuiltin', hagrees⟩ := agrees_builtin hbuiltin
    rw [call_builtin hbuiltin, call_builtin hbuiltin']
    exact hagrees
  | none =>
    have hbuiltin' : (plainFile setting others).builtin? name values = none :=
      builtin?_congr hbuiltin
    rcases find?_forall₂ hhead h name with
      ⟨hbefore, hafter⟩ | ⟨function, other, hbefore, hafter, hmem, hR⟩
    · rw [call_undefined hbuiltin (by rw [definition?_eq, hbefore]),
        call_undefined hbuiltin' (by rw [definition?_eq, hafter])]
      exact matches_throw
    · cases depth with
      | zero =>
        rw [call_zero hbuiltin (by rw [definition?_eq, hbefore]),
          call_zero hbuiltin' (by rw [definition?_eq, hafter])]
        exact matches_throw
      | succ depth =>
        rw [call_succ hbuiltin (by rw [definition?_eq, hbefore]),
          call_succ hbuiltin' (by rw [definition?_eq, hafter])]
        exact agrees_invoke (hhead hR).parameters (hhead hR).returnType (hbody depth function other
            values hmem hR (callersAgree_of_bodies hhead h hbody depth))

end Pairs

/-! ### What those outside see -/

theorem observe_eq_of_agrees {α : Type} {excused : Halt → Prop} {action other : Run Data Unit α}
    (h : Agrees excused state.env state.env action other)
    (hexcused : ∀ halt after, action state = .error halt after → ¬excused halt) :
    observe other state = observe action state := by
  have hstate := h state state ⟨⟨rfl, rfl⟩, rfl⟩
  unfold observe
  cases haction : action state with
  | ok =>
    rw [haction] at hstate
    obtain ⟨_, after', hother, rfl, -, hworld⟩ := hstate
    simp only [hother, hworld]
  | error halt after =>
    rw [haction] at hstate
    obtain ⟨after', hother, hworld⟩ := hstate.resolve_left (hexcused halt after haction)
    simp only [hother, hworld]

/-- Values for the parameters of a function that fit their types. -/
abbrev FitAll (values : List (Value Data)) (parameters : List Parameter) : Prop :=
  Forall₂ (fun value parameter => Fits value parameter.type.text) values parameters

theorem expectAll_plain (h : FitAll values parameters) :
    (plain setting program).expectAll values parameters = pure () := by
  induction h with
  | nil => rfl
  | cons hfirst _ ih => rw [expectAll, expect_plain hfirst, pure_bind, ih]

/-- Values that do not fit are refused, and this is all that happens. -/
theorem expectAll_plain_eq_throw (h : ¬FitAll values parameters) :
    (plain setting program).expectAll values parameters = throw .stuck := by
  induction values generalizing parameters with
  | nil =>
    cases parameters with
    | nil => exact absurd .nil h
    | cons => rfl
  | cons value values ih =>
    cases parameters with
    | nil => rfl
    | cons parameter =>
      rw [expectAll]
      by_cases hfirst : Fits value parameter.type.text
      · rw [expect_plain hfirst, pure_bind]
        exact ih fun hrest => h (.cons hfirst hrest)
      · rw [expect_plain_eq_throw hfirst]
        rfl

/-- **Calls that do the same look the same from outside**, if those with values that fit do not get
stuck. -/
theorem observe_call_eq {functions others : List FunctionDef} {R : FunctionDef → FunctionDef → Prop}
    {strategy strategy' : Machine.Strategy Data Unit}
    (hhead : ∀ {function other}, R function other → SameHead function other)
    (h : Forall₂ R functions others) {depth : Nat} {name : String}
    (hcalls : CallersAgree (· = .stuck) ((plainFile setting functions).call strategy depth)
      ((plainFile setting others).call strategy' depth))
    (hsound : ∀ function, functions.find? (·.name = name) = some function →
      FitAll values function.parameters → ∀ halt after,
      (plainFile setting functions).call strategy depth name values state = .error halt after →
      halt ≠ .stuck) :
    observe ((plainFile setting others).call strategy' depth name values) state =
      observe ((plainFile setting functions).call strategy depth name values) state := by
  cases hbuiltin : (plainFile setting functions).builtin? name values with
  | some action =>
    have hnone : ∀ halt after, action state = .error halt after → ¬False := fun _ _ _ => id
    obtain ⟨action', hbuiltin', hagrees⟩ := agrees_builtin hbuiltin
    rw [call_builtin hbuiltin, call_builtin hbuiltin']
    exact observe_eq_of_agrees hagrees hnone
  | none =>
    have hbuiltin' : (plainFile setting others).builtin? name values = none :=
      builtin?_congr hbuiltin
    rcases find?_forall₂ hhead h name with
      ⟨hbefore, hafter⟩ | ⟨function, other, hbefore, hafter, hmem, hR⟩
    · rw [call_undefined hbuiltin (by rw [definition?_eq, hbefore]),
        call_undefined hbuiltin' (by rw [definition?_eq, hafter])]
    -- with arguments that fit nothing gets stuck; without, both calls are refused at their start
    · by_cases hfits : FitAll values function.parameters
      · exact observe_eq_of_agrees (hcalls name values _ _) (hsound function hbefore hfits)
      · cases depth with
        | zero =>
          rw [call_zero hbuiltin (by rw [definition?_eq, hbefore]),
            call_zero hbuiltin' (by rw [definition?_eq, hafter])]
        | succ =>
          rw [call_succ hbuiltin (by rw [definition?_eq, hbefore]),
            call_succ hbuiltin' (by rw [definition?_eq, hafter]), invoke,
            invoke, (hhead hR).parameters, expectAll_plain_eq_throw hfits,
            expectAll_plain_eq_throw hfits]
          rfl

end FrontEnd.Execution
