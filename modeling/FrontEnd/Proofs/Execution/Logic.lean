import FrontEnd.Proofs.Execution.Machine

/-!
# Reasoning about runs

Two logics for parts of runs, with the rules that put them together.

`Holds P action Q allowed` is about one run: from a state with `P` on, the action ends with `Q`, or
early for an allowed reason. `Relates excused P action other Q` is about two runs side by side: from
states with `P` on, the second action does what the first one does, and they end in states with `Q`,
or early for the same reason with the world having seen the same. For the reasons in `excused`
nothing is said about the second action.
-/

namespace FrontEnd.Execution

open List

variable {ρ σ ρ' σ' α β γ δ : Type}

theorem bind_of_ok {action : Run ρ σ α} {next : α → Run ρ σ β} {state after : State ρ σ} {value : α}
    (h : action state = .ok value after) : (action >>= next) state = next value after := by
  simp only [Bind.bind, EStateM.bind, h]

theorem bind_get {next : State ρ σ → Run ρ σ α} (state : State ρ σ) :
    (get >>= next) state = next state state := rfl

/-- What no variable hides is called. -/
theorem apply_of_find_none {call : Machine.Caller ρ σ} {function : Name} {values : List (Value ρ)}
    {state : State ρ σ} (h : state.env.find function.text = none) :
    Machine.apply call (.name function) values state = call function.text values state := by
  rw [Machine.apply, bind_get, h]

/-! ### One run -/

/-- From states with `P` on, an action ends with `Q`, or early for an allowed reason. -/
def Holds (P : State ρ σ → Prop) (action : Run ρ σ α) (Q : α → State ρ σ → Prop)
    (allowed : Halt → Prop) : Prop :=
  ∀ state, P state → match action state with
    | .ok value after => Q value after
    | .error halt _ => allowed halt

namespace Holds

variable {P P' : State ρ σ → Prop} {Q Q' : α → State ρ σ → Prop} {allowed : Halt → Prop}
  {action : Run ρ σ α} {next : α → Run ρ σ β} {R : β → State ρ σ → Prop}

theorem bind (h : Holds P action Q allowed)
    (hnext : ∀ value, Holds (Q value) (next value) R allowed) :
    Holds P (action >>= next) R allowed := by
  intro state hP
  have hstate := h state hP
  simp only [Bind.bind, EStateM.bind]
  cases haction : action state with
  | ok value after => rw [haction] at hstate; exact hnext value after hstate
  | error => rw [haction] at hstate; exact hstate

/-- The same where the action leaves a fact about its value behind that has nothing to do with the
state. -/
theorem step {fact : α → Prop}
    (h : Holds P action (fun value state => Q value state ∧ fact value) allowed)
    (hnext : ∀ value, fact value → Holds (Q value) (next value) R allowed) :
    Holds P (action >>= next) R allowed :=
  h.bind fun value state hstate => hnext value hstate.2 state hstate.1

theorem pure {value : α} (h : ∀ state, P state → Q value state) :
    Holds P (Pure.pure value) Q allowed :=
  h

/-- Looking at the state, which is known from there on. -/
theorem get_bind {next : State ρ σ → Run ρ σ α}
    (h : ∀ state, P state → Holds (· = state) (next state) Q allowed) :
    Holds P (get >>= next) Q allowed :=
  fun state hstate => h state hstate state rfl

theorem modifyEnv {change : Env ρ → Env ρ} {R : Unit → State ρ σ → Prop}
    (h : ∀ state, P state → R () { state with env := change state.env }) :
    Holds P (Machine.modifyEnv change) R allowed :=
  h

theorem throw {halt : Halt} (h : allowed halt) :
    Holds P (MonadExcept.throw halt : Run ρ σ α) Q allowed :=
  fun _ _ => h

/-- A call by an expression that may stand for nothing to be called. -/
theorem apply {call : Machine.Caller ρ σ} {function : Expr} {values : List (Value ρ)}
    {Q : Value ρ → State ρ σ → Prop} (hstuck : allowed .stuck)
    (h : ∀ name, function = .name name → Holds P (call name.text values) Q allowed) :
    Holds P (Machine.apply call function values) Q allowed := by
  cases function with
  | name function =>
    intro state hstate
    rw [Machine.apply, bind_get]
    cases state.env.find function.text with
    | some => exact hstuck
    | none => exact h function rfl state hstate
  | integer | string | call => exact .throw hstuck

theorem weaken (h : Holds P action Q allowed) (hP : ∀ state, P' state → P state)
    (hQ : ∀ value state, Q value state → Q' value state) : Holds P' action Q' allowed := by
  intro state hstate
  have := h state (hP state hstate)
  cases haction : action state with
  | ok value after => rw [haction] at this; exact hQ value after this
  | error => rw [haction] at this; exact this

end Holds

/-! ### Two runs -/

/-- From states with `P` on, the second action does what the first one does and they end with `Q`,
or early for the same reason. What follows on an excused reason is left open. -/
def Relates (excused : Halt → Prop) (P : State ρ σ → State ρ' σ' → Prop) (action : Run ρ σ α)
    (other : Run ρ' σ' β) (Q : α → β → State ρ σ → State ρ' σ' → Prop) : Prop :=
  ∀ state state', P state state' → match action state with
    | .ok value after => ∃ value' after', other state' = .ok value' after' ∧
        Q value value' after after'
    | .error halt after => excused halt ∨
        ∃ after', other state' = .error halt after' ∧ after'.world = after.world

namespace Relates

variable {excused : Halt → Prop} {P P' : State ρ σ → State ρ' σ' → Prop}
  {Q Q' : α → β → State ρ σ → State ρ' σ' → Prop} {action : Run ρ σ α} {other : Run ρ' σ' β}
  {next : α → Run ρ σ γ} {otherNext : β → Run ρ' σ' δ} {R : γ → δ → State ρ σ → State ρ' σ' → Prop}

theorem bind (h : Relates excused P action other Q)
    (hnext : ∀ value value', Relates excused (Q value value') (next value) (otherNext value') R) :
    Relates excused P (action >>= next) (other >>= otherNext) R := by
  intro state state' hP
  have hstate := h state state' hP
  simp only [Bind.bind, EStateM.bind]
  cases haction : action state with
  | ok value after =>
    rw [haction] at hstate
    obtain ⟨value', after', hother, hQ⟩ := hstate
    rw [hother]
    exact hnext value value' after after' hQ
  | error =>
    rw [haction] at hstate
    rcases hstate with hexcused | ⟨after', hother, hworld⟩
    · exact .inl hexcused
    · exact .inr ⟨after', by rw [hother], hworld⟩

/-- The same where the values are related in a way that has nothing to do with the states. -/
theorem chain {fact : α → β → Prop}
    (h : Relates excused P action other fun value value' state state' =>
      fact value value' ∧ P' state state')
    (hnext : ∀ value value',
      fact value value' → Relates excused P' (next value) (otherNext value') R) :
    Relates excused P (action >>= next) (other >>= otherNext) R :=
  h.bind fun value value' state state' hstate =>
    hnext value value' hstate.1 state state' hstate.2

/-- The same where both actions give one value. -/
theorem step {other : Run ρ' σ' α} {otherNext : α → Run ρ' σ' δ}
    (h : Relates excused P action other fun value value' state state' =>
      value' = value ∧ P' state state')
    (hnext : ∀ value, Relates excused P' (next value) (otherNext value) R) :
    Relates excused P (action >>= next) (other >>= otherNext) R :=
  h.chain fun value _ hvalue => hvalue ▸ hnext value

/-- The first action does something, and the second one waits. -/
theorem left {other : Run ρ' σ' δ} {after : α → State ρ σ → State ρ' σ' → Prop}
    (h : ∀ state', Holds (P · state') action (after · · state') excused)
    (hnext : ∀ value, Relates excused (after value) (next value) other R) :
    Relates excused P (action >>= next) other R := by
  intro state state' hP
  have hstate := h state' state hP
  simp only [Bind.bind, EStateM.bind]
  cases haction : action state with
  | ok value middle => rw [haction] at hstate; exact hnext value middle state' hstate
  | error => rw [haction] at hstate; exact .inl hstate

/-- The second action does something that works out, and the first one waits. -/
theorem right {after : β → State ρ σ → State ρ' σ' → Prop}
    {R : α → δ → State ρ σ → State ρ' σ' → Prop}
    (h : ∀ state state', P state state' → ∃ value' after',
      other state' = .ok value' after' ∧ after value' state after')
    (hnext : ∀ value', Relates excused (after value') action (otherNext value') R) :
    Relates excused P action (other >>= otherNext) R := by
  intro state state' hP
  obtain ⟨value', after', hother, hafter⟩ := h state state' hP
  rw [bind_of_ok hother]
  exact hnext value' state after' hafter

/-- What is known of the first action alone. -/
theorem and_holds {fact : α → Prop} (h : Relates excused P action other Q)
    (hfact : Holds (fun _ => True) action (fun value _ => fact value) fun _ => True) :
    Relates excused P action other fun value value' state state' =>
      fact value ∧ Q value value' state state' := by
  intro state state' hP
  have hstate := h state state' hP
  have hvalue := hfact state trivial
  cases haction : action state with
  | error => rw [haction] at hstate; exact hstate
  | ok =>
    rw [haction] at hstate hvalue
    obtain ⟨value', after', hother, hQ⟩ := hstate
    exact ⟨value', after', hother, hvalue, hQ⟩

theorem pure {value : α} {value' : β}
    (h : ∀ state state', P state state' → Q value value' state state') :
    Relates excused P (Pure.pure value) (Pure.pure value') Q :=
  fun state state' hP => ⟨value', state', rfl, h state state' hP⟩

/-- Looking at the states, which are known from there on. -/
theorem get_bind {next : State ρ σ → Run ρ σ α} {otherNext : State ρ' σ' → Run ρ' σ' β}
    (h : ∀ state state', P state state' →
      Relates excused (fun found found' => found = state ∧ found' = state') (next state)
        (otherNext state') Q) :
    Relates excused P (get >>= next) (get >>= otherNext) Q :=
  fun state state' hstate => h state state' hstate state state' ⟨rfl, rfl⟩

theorem throw {halt : Halt}
    (h : ∀ state state', P state state' → excused halt ∨ state'.world = state.world) :
    Relates excused P (MonadExcept.throw halt : Run ρ σ α)
      (MonadExcept.throw halt : Run ρ' σ' β) Q := by
  intro state state' hP
  rcases h state state' hP with hexcused | hworld
  · exact .inl hexcused
  · exact .inr ⟨state', rfl, hworld⟩

theorem weaken (h : Relates excused P action other Q)
    (hP : ∀ state state', P' state state' → P state state')
    (hQ : ∀ value value' state state', Q value value' state state' → Q' value value' state state') :
    Relates excused P' action other Q' := by
  intro state state' hstate
  have := h state state' (hP state state' hstate)
  cases haction : action state with
  | ok =>
    rw [haction] at this
    obtain ⟨value', after', hother, hafter⟩ := this
    exact ⟨value', after', hother, hQ _ _ _ _ hafter⟩
  | error => rw [haction] at this; exact this

end Relates

/-! ### Blocks -/

namespace Machine

variable (machine : Machine ρ σ) (evaluate : Expr → Run ρ σ (Value ρ))

theorem execAll_append (block rest : List Stmt) : machine.execAll evaluate (block ++ rest) =
      machine.execAll evaluate block >>= fun result =>
        match result with
        | some value => pure (some value)
        | none => machine.execAll evaluate rest := by
  induction block with
  | nil => rw [nil_append, execAll, pure_bind]
  | cons stmt block ih =>
    rw [cons_append, execAll, execAll, ih, bind_assoc]
    congr 1
    funext result
    cases result with
    | some => rw [pure_bind]
    | none => rfl

theorem execAll_singleton (stmt : Stmt) :
    machine.execAll evaluate [stmt] = machine.exec evaluate stmt := by
  rw [execAll]
  conv => rhs; rw [← bind_pure (machine.exec evaluate stmt)]
  congr 1
  funext result
  cases result with
  | some => rfl
  | none => rw [execAll]

end Machine

/-! ### Environments -/

namespace Env

variable {frame : List (Slot ρ)} {κ : Type}

theorem find_cons (frame : List (Slot ρ)) (outer : Env ρ) (name : String) :
    find (frame :: outer) name =
      match frame.find? (·.name = name) with
      | some slot => some slot
      | none => find outer name := by
  simp only [find, flatten_cons, find?_append]
  cases frame.find? (·.name = name) <;> rfl

@[simp] theorem length_declare (env : Env ρ) (slot : Slot ρ) :
    (env.declare slot).length = env.length := by
  cases env <;> rfl

@[simp] theorem length_update (env : Env ρ) (name : String) (value : Value ρ) :
    (update name value env).length = env.length := by
  induction env with
  | nil => rfl
  | cons frame outer ih =>
    rw [update]
    split
    · rfl
    · rw [length_cons, ih, length_cons]

theorem find_declare {env : Env ρ} (h : env ≠ []) (slot : Slot ρ) (name : String) :
    (env.declare slot).find name = if slot.name = name then some slot else env.find name := by
  cases env with
  | nil => exact absurd rfl h
  | cons =>
    simp only [declare, find, flatten_cons, cons_append, find?_cons]
    by_cases hname : slot.name = name <;> simp [hname]

theorem find?_updateFrame (frame : List (Slot ρ)) (name other : String) (value : Value ρ) :
    (updateFrame name value frame).find? (·.name = other) =
      if other = name then (frame.find? (·.name = other)).map fun slot =>
        { slot with value := value }
      else frame.find? (·.name = other) := by
  induction frame with
  | nil => simp [updateFrame]
  | cons slot frame ih =>
    rw [updateFrame]
    by_cases hslot : slot.name = name
    · rw [if_pos hslot]
      by_cases hother : other = name
      · subst hother
        simp [hslot]
      · have hne : slot.name ≠ other := fun h => hother (h.symm.trans hslot)
        rw [find?_cons_of_neg (by simpa using hne), find?_cons_of_neg (by simpa using hne),
          if_neg hother]
    · rw [if_neg hslot, find?_cons, find?_cons, ih]
      by_cases hother : slot.name = other
      · have hne : other ≠ name := fun h => hslot (hother.trans h)
        simp [hother, hne]
      · simp [hother]

theorem updateFrame_append (name : String) (value : Value ρ) (front back : List (Slot ρ)) :
    updateFrame name value (front ++ back) =
      if front.any (·.name = name) then updateFrame name value front ++ back
      else front ++ updateFrame name value back := by
  induction front with
  | nil => simp
  | cons slot front ih =>
    by_cases hname : slot.name = name
    · simp [updateFrame, hname]
    · rw [cons_append, updateFrame, if_neg hname, ih, any_cons, decide_eq_false hname,
        Bool.false_or, updateFrame, if_neg hname]
      split <;> rfl

/-- Only the innermost variable of the name gets the new value. -/
theorem mem_updateFrame {name : String} {value : Value ρ} {slot : Slot ρ}
    (h : slot ∈ updateFrame name value frame) :
    slot ∈ frame ∨ ∃ found, frame.find? (·.name = name) = some found ∧
      slot = { found with value := value } := by
  induction frame with
  | nil => cases h
  | cons first frame ih =>
    rw [updateFrame] at h
    by_cases hfirst : first.name = name
    · rw [if_pos hfirst] at h
      rcases mem_cons.mp h with rfl | h
      · exact .inr ⟨first, by simp [hfirst], rfl⟩
      · exact .inl (mem_cons_of_mem _ h)
    · rw [if_neg hfirst] at h
      rcases mem_cons.mp h with rfl | h
      · exact .inl mem_cons_self
      · rw [find?_cons_of_neg (by simpa using hfirst)]
        exact (ih h).imp_left (mem_cons_of_mem _)

/-- A new value gets to the first slot of its name. -/
theorem flatten_update (env : Env ρ) (name : String) (value : Value ρ) :
    (update name value env).flatten = updateFrame name value env.flatten := by
  induction env with
  | nil => rfl
  | cons frame outer ih =>
    rw [update, flatten_cons, updateFrame_append]
    split
    · rfl
    · rw [flatten_cons, ih]

/-- A new value for one name changes what is found for that name alone. -/
theorem find_update (env : Env ρ) (name other : String) (value : Value ρ) :
    (update name value env).find other =
      if other = name then (env.find other).map fun slot => { slot with value := value }
      else env.find other := by
  rw [find, flatten_update, find?_updateFrame]
  rfl

/-- A new value for a name changes nothing but values. -/
theorem map_updateFrame (key : Slot ρ → κ)
    (hkey : ∀ slot value, key { slot with value := value } = key slot) (name : String)
    (value : Value ρ) (frame : List (Slot ρ)) :
    (updateFrame name value frame).map key = frame.map key := by
  induction frame with
  | nil => rfl
  | cons slot frame ih =>
    rw [updateFrame]
    split
    · rw [map_cons, map_cons, hkey]
    · rw [map_cons, map_cons, ih]

theorem map_update (key : Slot ρ → κ)
    (hkey : ∀ slot value, key { slot with value := value } = key slot) (name : String)
    (value : Value ρ) (env : Env ρ) :
    (update name value env).map (·.map key) = env.map (·.map key) := by
  induction env with
  | nil => rfl
  | cons frame outer ih =>
    rw [update]
    split
    · rw [map_cons, map_cons, map_updateFrame key hkey]
    · rw [map_cons, map_cons, ih]

/-- What is known of the variables of a function at its start, if there are enough arguments. -/
theorem map_ofArguments (key : Slot ρ → κ) (keyOf : Parameter → κ)
    (hkey : ∀ (parameter : Parameter) value, key ⟨parameter.name.text, parameter.type.text,
      parameter.name.location, value⟩ = keyOf parameter) {parameters : List Parameter}
    {values : List (Value ρ)}
    (h : values.length = parameters.length) :
    (ofArguments parameters values).map (·.map key) = [(parameters.map keyOf).reverse] := by
  rw [ofArguments, map_singleton, map_reverse, map_zipWith]
  congr 2
  induction parameters generalizing values with
  | nil => rfl
  | cons parameter parameters ih =>
    cases values with
    | nil => cases h
    | cons =>
      rw [zipWith_cons_cons, map_cons, hkey, ih (Nat.succ.inj h)]

/-- Where names differ, it does not matter from which end a frame is searched. -/
theorem find?_reverse (h : (frame.map (·.name)).Nodup) (name : String) :
    frame.reverse.find? (·.name = name) = frame.find? (·.name = name) := by
  induction frame with
  | nil => rfl
  | cons slot frame ih =>
    rw [map_cons, nodup_cons] at h
    rw [reverse_cons, find?_append, ih h.2, find?_cons]
    by_cases hname : slot.name = name
    · have hnone : frame.find? (·.name = name) = none := by
        refine find?_eq_none.mpr fun other hother hsame => h.1 ?_
        rw [hname, ← of_decide_eq_true hsame]
        exact mem_map_of_mem hother
      simp [hnone, hname]
    · simp [hname]

end Env

end FrontEnd.Execution
