import FrontEnd.Proofs.Execution.Plain

/-!
# Counted runs and plain ones

A counted run does what the plain run does, as long as nothing goes wrong with its references
(`callersErase`). An object of the counted run is shown as what it holds, which never changes while
its count goes up and down (`Heap.Grows`); so a value that was shown once is shown in the same way
later.

The relation is kept from a heap on (`Erases`): an action takes states that show the same, at a heap
that has grown from the given one, to states of the same kind.
-/

namespace FrontEnd.Execution

open Machine List

/-- The machine that counts. -/
abbrev counted (setting : Setting) (program : Program) : Machine Nat Heap :=
  ⟨.counted, setting, program⟩

/-! ### What is shown of a heap -/

/-- What an object holds, whether or not it still has references. -/
def Heap.data? (heap : Heap) (address : Nat) : Option Data :=
  heap[address]?.map (·.data)

/-- One heap has the objects of another one, with whatever counts, and maybe more. -/
def Heap.Grows (heap later : Heap) : Prop :=
  ∀ address data, heap.data? address = some data → later.data? address = some data

namespace Heap.Grows

theorem refl (heap : Heap) : heap.Grows heap := fun _ _ => id

theorem trans {first second third : Heap} (h : first.Grows second) (h' : second.Grows third) :
    first.Grows third :=
  fun address data hdata => h' address data (h address data hdata)

theorem append (heap : Heap) (object : Object) : heap.Grows (heap ++ [object]) := by
  intro address data hdata
  obtain ⟨found, hfound, rfl⟩ := Option.map_eq_some_iff.mp hdata
  rw [Heap.data?, getElem?_append_left (List.getElem?_eq_some_iff.mp hfound).1, hfound]
  rfl

/-- Counting changes no data. -/
theorem recount {heap later : Heap} {address : Nat} {change : Nat → Nat}
    (h : heap.recount address change = some later) : heap.Grows later := by
  intro other data hdata
  unfold Heap.recount at h
  split at h
  · cases h
  · cases h
  · next object _ hobject =>
    cases h
    unfold Heap.data? at hdata ⊢
    rw [getElem?_set]
    split
    · next heq =>
      subst heq
      have hlt := (List.getElem?_eq_some_iff.mp hobject).1
      rw [if_pos hlt]
      rw [hobject] at hdata
      exact hdata
    · exact hdata

end Heap.Grows

/-- A value of a counted run and what it shows. -/
inductive Shows (heap : Heap) : Value Nat → Value Data → Prop
  | nothing : Shows heap .nothing .nothing
  | unset : Shows heap .unset .unset
  | truth (holds : Bool) : Shows heap (.truth holds) (.truth holds)
  | object {address : Nat} {data : Data} (h : heap.data? address = some data) :
      Shows heap (.object address) (.object data)
  | static (name : String) : Shows heap (.static name) (.static name)

theorem Shows.grows {heap later : Heap} {value : Value Nat} {shown : Value Data}
    (h : Shows heap value shown) (hgrows : heap.Grows later) : Shows later value shown := by
  cases h with
  | nothing => exact .nothing
  | unset => exact .unset
  | truth holds => exact .truth holds
  | object h => exact .object (hgrows _ _ h)
  | static name => exact .static name

/-- A variable and what it shows. -/
structure SlotShows (heap : Heap) (slot : Slot Nat) (shown : Slot Data) : Prop where
  name : shown.name = slot.name
  type : shown.type = slot.type
  location : shown.location = slot.location
  value : Shows heap slot.value shown.value

/-- An environment and what it shows. -/
abbrev EnvShows (heap : Heap) (env : Env Nat) (shown : Env Data) : Prop :=
  Forall₂ (Forall₂ (SlotShows heap)) env shown

namespace EnvShows

variable {heap later : Heap} {env : Env Nat} {shown : Env Data} {value : Value Nat}
  {value' : Value Data}

theorem grows (h : EnvShows heap env shown) (hgrows : heap.Grows later) :
    EnvShows later env shown :=
  h.imp fun _ _ hframe => hframe.imp fun _ _ hslot =>
    ⟨hslot.name, hslot.type, hslot.location, hslot.value.grows hgrows⟩

/-- A name stands for variables that show the same. -/
theorem find (h : EnvShows heap env shown) (name : String) :
    (Env.find env name = none ∧ Env.find shown name = none) ∨
    ∃ slot slot', Env.find env name = some slot ∧ Env.find shown name = some slot' ∧
    SlotShows heap slot slot' := by
  have hflatten : Forall₂ (SlotShows heap) env.flatten shown.flatten := by
    induction h with
    | nil => exact .nil
    | cons hframe _ ih => exact rel_append hframe ih
  unfold Env.find
  generalize env.flatten = slots, shown.flatten = slots' at hflatten ⊢
  induction hflatten with
  | nil => exact .inl ⟨rfl, rfl⟩
  | @cons slot slot' slots slots' hslot _ ih =>
    by_cases hname : slot.name = name
    · refine .inr ⟨slot, slot', ?_, ?_, hslot⟩
      · exact find?_cons_of_pos (by simpa using hname)
      · exact find?_cons_of_pos (by simpa [hslot.name] using hname)
    · rw [find?_cons_of_neg (by simpa using hname),
        find?_cons_of_neg (by simpa [hslot.name] using hname)]
      exact ih

theorem declare (h : EnvShows heap env shown) {slot : Slot Nat} {slot' : Slot Data}
    (hslot : SlotShows heap slot slot') :
    EnvShows heap (Env.declare env slot) (Env.declare shown slot') := by
  cases h with
  | nil => exact .nil
  | cons hframe hrest => exact .cons (.cons hslot hframe) hrest

theorem updateFrame {frame : List (Slot Nat)} {frame' : List (Slot Data)}
    (h : Forall₂ (SlotShows heap) frame frame') (name : String) (hvalue : Shows heap value value') :
    Forall₂ (SlotShows heap) (Env.updateFrame name value frame)
      (Env.updateFrame name value' frame') := by
  induction h with
  | nil => exact .nil
  | cons hslot hrest ih =>
    rw [Env.updateFrame, Env.updateFrame, hslot.name]
    split
    · exact .cons ⟨rfl, hslot.type, hslot.location, hvalue⟩ hrest
    · exact .cons hslot ih

theorem update (h : EnvShows heap env shown) (name : String) (hvalue : Shows heap value value') :
    EnvShows heap (Env.update name value env) (Env.update name value' shown) := by
  induction h with
  | nil => exact .nil
  | @cons frame frame' outer outer' hframe hrest ih =>
    have hany : frame'.any (·.name = name) = frame.any (·.name = name) := by
      clear ih hrest
      induction hframe with
      | nil => rfl
      | cons hslot _ ih => rw [any_cons, any_cons, hslot.name, ih]
    rw [Env.update, Env.update, hany]
    split
    · exact .cons (updateFrame hframe name hvalue) hrest
    · exact .cons hframe ih

theorem ofArguments (parameters : List Parameter) {values : List (Value Nat)}
    {values' : List (Value Data)} (h : Forall₂ (Shows heap) values values') :
    EnvShows heap (Env.ofArguments parameters values) (Env.ofArguments parameters values') := by
  refine .cons (rel_reverse ?_) .nil
  induction h generalizing parameters with
  | nil => simp
  | cons hvalue _ ih =>
    cases parameters with
    | nil => exact .nil
    | cons parameter parameters => exact .cons ⟨rfl, rfl, rfl, hvalue⟩ (ih parameters)

end EnvShows

/-! ### Actions that show the same -/

/-- What can go wrong with references. -/
def Miscounts (halt : Halt) : Prop :=
  halt = .dangling ∨ halt = .missing ∨ halt = .unbalanced

/-- The states of two runs that show the same, where the heap has grown from the given one. -/
structure StateShows (heap : Heap) (state : State Nat Heap) (shown : State Data Unit) : Prop where
  grows : heap.Grows state.store
  env : EnvShows state.store state.env shown.env
  world : shown.world = state.world

/-- From the given heap on, the second action does what the first one does, unless something goes
wrong with references. -/
def Erases {α β : Type} (heap : Heap) (action : Run Nat Heap α) (other : Run Data Unit β)
    (Q : Heap → α → β → Prop) : Prop :=
  Relates Miscounts (StateShows heap) action other fun value value' state state' =>
    Q state.store value value' ∧ StateShows heap state state'

section Actions

variable {α β γ δ : Type} {heap : Heap} {setting : Setting} {program : Program}
  {Q : Heap → α → β → Prop} {value : Value Nat} {value' : Value Data} {values : List (Value Nat)}
  {values' : List (Value Data)}

theorem Erases.bind {action : Run Nat Heap α} {other : Run Data Unit β} {next : α → Run Nat Heap γ}
    {otherNext : β → Run Data Unit δ} {R : Heap → γ → δ → Prop} (h : Erases heap action other Q)
    (hnext : ∀ value value' later, heap.Grows later → Q later value value' →
      Erases later (next value) (otherNext value') R) :
      Erases heap (action >>= next) (other >>= otherNext) R := by
  refine Relates.bind h fun value value' state state' hstate => ?_
  obtain ⟨hQ, hgrows, henv, hworld⟩ := hstate
  -- the rest starts from the heap that there is by now, which has grown from the first one
  have hrest := hnext value value' state.store hgrows hQ state state' ⟨.refl _, henv, hworld⟩
  cases haction : next value state with
  | error => rw [haction] at hrest; exact hrest
  | ok =>
    rw [haction] at hrest
    obtain ⟨result', after', hother, hR, hshows⟩ := hrest
    exact ⟨result', after', hother, hR, hgrows.trans hshows.grows, hshows.env, hshows.world⟩

theorem Erases.pure {value : α} {value' : β}
    (h : ∀ later, heap.Grows later → Q later value value') :
    Erases heap (Pure.pure value) (Pure.pure value') Q :=
  Relates.pure fun _ _ hstate => ⟨h _ hstate.grows, hstate⟩

theorem Erases.throw {halt : Halt} :
    Erases heap (MonadExcept.throw halt : Run Nat Heap α)
      (MonadExcept.throw halt : Run Data Unit β) Q :=
  Relates.throw fun _ _ hstate => .inr hstate.world

theorem erases_modifyEnv {change : Env Nat → Env Nat} {change' : Env Data → Env Data}
    (h : ∀ later env env', heap.Grows later → EnvShows later env env' →
      EnvShows later (change env) (change' env')) :
    Erases heap (modifyEnv change) (modifyEnv change') fun _ _ _ => True :=
  fun _ _ hstate =>
    ⟨_, _, rfl, trivial, hstate.grows, h _ _ _ hstate.grows hstate.env, hstate.world⟩

/-- What an object holds that still has references. -/
theorem erases_look {address : Nat} {data : Data} (h : heap.data? address = some data) :
    Erases heap ((counted setting program).look address) ((plain setting program).look data)
      fun _ found found' => found = data ∧ found' = data := by
  intro state state' hstate
  have hdata := hstate.grows _ _ h
  unfold Heap.data? at hdata
  simp only [look, Memory.counted]
  cases hobject : state.store[address]? with
  | none => rw [hobject] at hdata; cases hdata
  | some object =>
    obtain ⟨found, count⟩ := object
    rw [hobject] at hdata
    cases hdata
    cases count with
    | zero => exact .inl (.inl rfl)
    | succ => exact ⟨_, _, rfl, ⟨rfl, rfl⟩, hstate⟩

theorem erases_create (data : Data) :
    Erases heap ((counted setting program).create data) ((plain setting program).create
      data) Shows := by
  intro state state' hstate
  have hgrows := Heap.Grows.append state.store ⟨data, 1⟩
  refine ⟨.object data, state', rfl, .object ?_, hstate.grows.trans hgrows,
    hstate.env.grows hgrows, hstate.world⟩
  simp [Heap.data?, Memory.counted]

theorem erases_expect (h : Shows heap value value') (type : String) :
    Erases heap ((counted setting program).expect value type)
      ((plain setting program).expect value' type) fun _ _ _ => True := by
  cases h with
  | nothing => exact .throw
  | unset => exact .pure fun _ _ => trivial
  | static => exact .throw
  | truth =>
    rw [expect, expect]
    split
    · exact .pure fun _ _ => trivial
    · exact .throw
  | object hdata =>
    rw [expect, expect]
    refine Erases.bind (erases_look hdata) fun found found' later _ hfound => ?_
    rw [hfound.1, hfound.2]
    split
    · exact .pure fun _ _ => trivial
    · exact .throw

theorem erases_expectAll (h : Forall₂ (Shows heap) values values') (parameters : List Parameter) :
    Erases heap ((counted setting program).expectAll values parameters)
      ((plain setting program).expectAll values' parameters) fun _ _ _ => True := by
  induction values generalizing values' parameters heap with
  | nil =>
    cases h
    cases parameters with
    | nil => exact .pure fun _ _ => trivial
    | cons => exact .throw
  | cons value values ih =>
    cases h with
    | cons hvalue hrest =>
      cases parameters with
      | nil => exact .throw
      | cons parameter parameters =>
        rw [expectAll, expectAll]
        refine Erases.bind (erases_expect hvalue _) fun _ _ later hgrows _ => ?_
        exact ih (hrest.imp fun _ _ hshows => hshows.grows hgrows) parameters

/-- Looking at the states, which show the same. -/
theorem Erases.get_bind {next : State Nat Heap → Run Nat Heap α}
    {otherNext : State Data Unit → Run Data Unit β}
    (h : ∀ state state',
      StateShows heap state state' → Erases state.store (next state) (otherNext state') Q) :
    Erases heap (get >>= next) (get >>= otherNext) Q := by
  intro state state' hstate
  have hrest := h state state' hstate state state' ⟨.refl _, hstate.env, hstate.world⟩
  rw [bind_get, bind_get]
  cases haction : next state state with
  | error => rw [haction] at hrest; exact hrest
  | ok =>
    rw [haction] at hrest
    obtain ⟨result', after', hother, hQ, hshows⟩ := hrest
    exact ⟨result', after', hother, hQ, hstate.grows.trans hshows.grows, hshows.env, hshows.world⟩

theorem global?_counted (name : String) :
      (∃ value value',
        (counted setting program).global? name = some value ∧ (plain setting program).global? name =
          some value' ∧ ∀ heap, Shows heap value value') ∨
    (counted setting program).global? name = none ∧
    (plain setting program).global? name = none := by
  have hdefinition :
      (plain setting program).definition? name = (counted setting program).definition? name := rfl
  unfold global?
  rw [hdefinition]
  split
  · exact .inl ⟨_, _, rfl, rfl, fun _ => .truth true⟩
  · split
    · exact .inl ⟨_, _, rfl, rfl, fun _ => .truth false⟩
    · by_cases hstatic : name ∈ ["Int", "String", "Bool", "print", "input"] ∨
          ((counted setting program).definition? name).isSome
      · rw [if_pos hstatic, if_pos hstatic]
        exact .inl ⟨_, _, rfl, rfl, fun _ => .static name⟩
      · rw [if_neg hstatic, if_neg hstatic]
        exact .inr ⟨rfl, rfl⟩

theorem erases_readName (name : String) :
    Erases heap ((counted setting program).readName name) ((plain setting program).readName
      name) Shows := by
  refine Erases.get_bind fun state state' hstate => ?_
  -- variables show the same, and what no variable is means the same outside of bodies
  rcases hstate.env.find name with ⟨hnone, hnone'⟩ | ⟨slot, slot', hslot, hslot', hshows⟩
  · rw [hnone, hnone']
    rcases global?_counted name with ⟨value, value', hvalue, hvalue', hshows⟩ | ⟨hvalue, hvalue'⟩
    · rw [hvalue, hvalue']
      exact .pure fun later _ => hshows later
    · rw [hvalue, hvalue']
      exact .throw
  · rw [hslot, hslot']
    have hvalue := hshows.value
    dsimp only
    generalize slot.value = value, slot'.value = value' at hvalue
    cases hvalue with
    | nothing => exact .pure fun _ _ => .nothing
    | unset => exact .pure fun _ _ => .unset
    | truth holds => exact .pure fun _ _ => .truth holds
    | static name => exact .pure fun _ _ => .static name
    | object hdata =>
      refine Erases.bind (erases_look hdata) fun _ _ later hgrows _ => ?_
      exact .pure fun last hlast => .object (hlast _ _ (hgrows _ _ hdata))

theorem erases_assign (name : String) (h : Shows heap value value') :
    Erases heap ((counted setting program).assign name value)
      ((plain setting program).assign name value') fun _ _ _ => True := by
  refine Erases.get_bind fun state state' hstate => ?_
  have hvalue := h.grows hstate.grows
  rcases hstate.env.find name with ⟨hnone, hnone'⟩ | ⟨slot, slot', hslot, hslot', hshows⟩
  · rw [hnone, hnone']
    exact .throw
  · rw [hslot, hslot']
    simp only [hshows.type]
    refine Erases.bind (erases_expect hvalue _) fun _ _ later hgrows _ => ?_
    exact erases_modifyEnv fun last env env' hlast henv =>
      henv.update name (hvalue.grows (hgrows.trans hlast))

/-- What counting does does not show. -/
theorem erases_recount {change : Nat → Heap → Option Heap}
    (hchange : ∀ address store later, change address store = some later → store.Grows later)
    (slot : Option (Slot Nat)) :
    Erases heap (Machine.recount change slot) (pure () : Run Data Unit Unit) fun _ _ _ => True := by
  intro state state' hstate
  unfold Machine.recount
  cases slot with
  | none => exact .inl (.inr (.inl rfl))
  | some slot =>
    dsimp only
    cases slot.value with
    | object address =>
      dsimp only
      cases hlater : change address state.store with
      | none => exact .inl (.inl rfl)
      | some =>
        have hgrows := hchange _ _ _ hlater
        exact ⟨_, _, rfl, trivial, hstate.grows.trans hgrows, hstate.env.grows hgrows, hstate.world⟩
    | nothing | unset | truth | static => exact ⟨_, _, rfl, trivial, hstate⟩

theorem grows_retain (address : Nat) (store later : Heap)
    (h : Memory.counted.retain address store = some later) : store.Grows later :=
  Heap.Grows.recount (show store.recount address (· + 1) = some later from h)

theorem grows_release (address : Nat) (store later : Heap)
    (h : Memory.counted.release address store = some later) : store.Grows later :=
  Heap.Grows.recount (show store.recount address (· - 1) = some later from h)

theorem erases_retain (name : String) :
    Erases heap ((counted setting program).retain name) ((plain setting program).retain
      name) fun _ _ _ => True := by
  intro state state' hstate
  have hrecount : Erases heap (Machine.recount Memory.counted.retain (state.env.find name))
      (pure () : Run Data Unit Unit) fun _ _ _ => True :=
    erases_recount grows_retain _
  exact hrecount state state' hstate

theorem erases_release (name : String) (location : Location) :
    Erases heap ((counted setting program).release name location)
      ((plain setting program).release name location) fun _ _ _ => True := by
  intro state state' hstate
  have hrecount :
      Erases heap (Machine.recount Memory.counted.release (state.env.findAt name location))
        (pure () : Run Data Unit Unit) fun _ _ _ => True :=
    erases_recount grows_release _
  exact hrecount state state' hstate

theorem erases_emit (event : Event) : Erases heap (emit event : Run Nat Heap Unit)
      (emit event : Run Data Unit Unit)
      fun _ _ _ => True := by
  intro state state' hstate
  exact ⟨_, _, rfl, trivial, hstate.grows, hstate.env, by simp [hstate.world]⟩

theorem erases_print (h : Shows heap value value') :
    Erases heap ((counted setting program).print value) ((plain setting program).print
      value') Shows := by
  cases h with
  | nothing => exact .throw
  | unset => exact Erases.bind (erases_emit _) fun _ _ _ _ _ => .pure fun _ _ => .nothing
  | truth | static => exact .throw
  | @object address data hdata =>
    refine Erases.bind (erases_look hdata) fun found found' later _ hfound => ?_
    rw [hfound.1, hfound.2]
    cases data with
    | integer => exact .throw
    | text => exact Erases.bind (erases_emit _) fun _ _ _ _ _ => .pure fun _ _ => .nothing

theorem erases_input :
    Erases heap (counted setting program).input (plain setting program).input Shows := by
  intro state state' hstate
  have hgrows := Heap.Grows.append state.store ⟨.text (setting.line state.world.asked), 1⟩
  refine ⟨.object (.text (setting.line state'.world.asked)), _, rfl, .object ?_,
    hstate.grows.trans hgrows, hstate.env.grows hgrows, by simp [hstate.world]⟩
  rw [hstate.world]
  simp [Heap.data?, Memory.counted]

theorem erases_branch (h : Shows heap value value') :
    Erases heap ((counted setting program).branch value) ((plain setting program).branch value')
      fun _ taken taken' => taken' = taken := by
  intro state state' hstate
  have hworld := hstate.world
  cases h with
  | nothing => exact .inr ⟨_, rfl, by simp [hworld]⟩
  | unset | truth holds =>
    exact ⟨_, _, rfl, by rw [hworld], hstate.grows, hstate.env, by simp [hworld]⟩
  | object | static => exact .inr ⟨_, rfl, by simp [hworld]⟩

/-! ### Expressions, statements and calls -/

/-- Two ways to call functions that show the same. -/
def CallersErase (call : Machine.Caller Nat Heap) (call' : Machine.Caller Data Unit) : Prop :=
  ∀ name heap values values', Forall₂ (Shows heap) values values' →
    Erases heap (call name values) (call' name values') Shows

variable {call : Machine.Caller Nat Heap} {call' : Machine.Caller Data Unit}

theorem erases_apply (hcall : CallersErase call call') (function : Expr)
    (h : Forall₂ (Shows heap) values values') :
    Erases heap (apply call function values) (apply call' function values') Shows := by
  cases function with
  | name function =>
    rw [apply, apply]
    refine Erases.get_bind fun state state' hstate => ?_
    rcases hstate.env.find function.text with ⟨hnone, hnone'⟩ | ⟨slot, slot', hslot, hslot', -⟩
    · rw [hnone, hnone']
      exact hcall _ _ values values' (h.imp fun _ _ hshows => hshows.grows hstate.grows)
    · rw [hslot, hslot']
      exact .throw
  | integer | string | call => exact .throw

mutual

theorem erases_eval (hcall : CallersErase call call') : ∀ (expression : Expr) {heap : Heap},
    Erases heap ((counted setting program).eval call expression) ((plain setting program).eval call'
      expression) Shows
  | .name name, heap => by
    rw [eval, eval]
    exact erases_readName _
  | .integer digits location, heap | .string text location, heap => by
    rw [eval, eval]
    exact erases_create _
  | .call function arguments location, heap => by
    rw [eval, eval]
    exact Erases.bind (erases_evalAll hcall arguments) fun _ _ _ _ hvalues =>
      erases_apply hcall function hvalues

theorem erases_evalAll (hcall : CallersErase call call') : ∀ (arguments : List Expr) {heap : Heap},
    Erases heap ((counted setting program).evalAll call arguments)
      ((plain setting program).evalAll call' arguments) fun later => Forall₂ (Shows later)
  | [], heap => by
    rw [evalAll, evalAll]
    exact .pure fun _ _ => .nil
  | argument :: arguments, heap => by
    rw [evalAll, evalAll]
    refine Erases.bind (erases_eval hcall argument) fun value value' later _ hvalue => ?_
    refine Erases.bind (erases_evalAll hcall arguments) fun values values' last hlast hvalues => ?_
    refine .pure fun final hfinal => .cons (hvalue.grows (hlast.trans hfinal)) ?_
    exact hvalues.imp fun _ _ hshows => hshows.grows hfinal

end

/-- The end of a part of a function, with values that show the same. -/
def ResultShows (heap : Heap) : Option (Value Nat) → Option (Value Data) → Prop
  | none, none => True
  | some value, some value' => Shows heap value value'
  | _, _ => False

theorem ResultShows.grows {later : Heap} {result : Option (Value Nat)}
    {result' : Option (Value Data)} (h : ResultShows heap result result')
    (hgrows : heap.Grows later) : ResultShows later result result' := by
  cases result with
  | none =>
    cases result' with
    | none => trivial
    | some => cases h
  | some =>
    cases result' with
    | none => cases h
    | some => exact Shows.grows h hgrows

theorem erases_inBlock {action : Run Nat Heap (Option (Value Nat))}
    {other : Run Data Unit (Option (Value Data))}
    (h : ∀ heap, Erases heap action other ResultShows) :
    Erases heap (inBlock action) (inBlock other) ResultShows := by
  unfold inBlock
  refine Erases.bind (erases_modifyEnv fun _ _ _ _ henv => .cons .nil henv) fun _ _ later _ _ => ?_
  refine Erases.bind (h later) fun result result' last _ hresult => ?_
  refine Erases.bind (erases_modifyEnv fun _ _ _ _ henv => ?_) fun _ _ final hfinal _ => ?_
  · cases henv with
    | nil => exact .nil
    | cons _ hrest => exact hrest
  · exact .pure fun _ hgrows => hresult.grows (hfinal.trans hgrows)

/-- Two ways to evaluate expressions that show the same. -/
def EvaluatorsErase (evaluate : Expr → Run Nat Heap (Value Nat))
    (evaluate' : Expr → Run Data Unit (Value Data)) : Prop :=
  ∀ expression heap, Erases heap (evaluate expression) (evaluate' expression) Shows

section Statements

variable {evaluate : Expr → Run Nat Heap (Value Nat)}
  {evaluate' : Expr → Run Data Unit (Value Data)}

mutual

theorem erases_exec (h : EvaluatorsErase evaluate evaluate') : ∀ (stmt : Stmt) {heap : Heap},
    Erases heap ((counted setting program).exec evaluate stmt) ((plain setting program).exec
      evaluate' stmt) ResultShows
  | .expression expression location, heap => by
    rw [exec, exec]
    exact Erases.bind (h expression heap) fun _ _ _ _ _ => .pure fun _ _ => trivial
  | .declaration type name location, heap => by
    rw [exec, exec]
    refine Erases.bind (erases_modifyEnv fun _ _ _ _ henv => ?_) fun _ _ _ _ _ =>
      .pure fun _ _ => trivial
    exact henv.declare ⟨rfl, rfl, rfl, .unset⟩
  | .assignment target value location, heap => by
    rw [exec, exec]
    refine Erases.bind (h value heap) fun _ _ later _ hvalue => ?_
    exact Erases.bind (erases_assign _ hvalue) fun _ _ _ _ _ => .pure fun _ _ => trivial
  -- both runs show the same value, so they take the same way
  | .conditional condition body location, heap => by
    rw [exec, exec]
    refine Erases.bind (h condition heap) fun _ _ later _ hvalue => ?_
    refine Erases.bind (erases_branch hvalue) fun taken taken' last _ htaken => ?_
    rw [htaken]
    cases taken with
    | true => exact erases_inBlock fun _ => erases_execAll h body
    | false => exact .pure fun _ _ => trivial
  | .result value location, heap => by
    rw [exec, exec]
    exact Erases.bind (h value heap) fun _ _ later _ hvalue =>
      .pure fun _ hgrows => Shows.grows hvalue hgrows
  | .function .., heap => by
    rw [exec, exec]
    exact .throw
  | .retain name location, heap => by
    rw [exec, exec]
    exact Erases.bind (erases_retain name) fun _ _ _ _ _ => .pure fun _ _ => trivial
  | .release name location, heap => by
    rw [exec, exec]
    exact Erases.bind (erases_release name location) fun _ _ _ _ _ => .pure fun _ _ => trivial

theorem erases_execAll (h : EvaluatorsErase evaluate evaluate') : ∀ (block : List Stmt)
    {heap : Heap},
    Erases heap ((counted setting program).execAll evaluate block)
      ((plain setting program).execAll evaluate' block) ResultShows
  | [], heap => by
    rw [execAll, execAll]
    exact .pure fun _ _ => trivial
  | stmt :: block, heap => by
    rw [execAll, execAll]
    refine Erases.bind (erases_exec h stmt) fun result result' later _ hresult => ?_
    cases result with
    | none =>
      cases result' with
      | none => exact erases_execAll h block
      | some => cases hresult
    | some =>
      cases result' with
      | none => cases hresult
      | some => exact .pure fun _ hgrows => Shows.grows hresult hgrows

end

theorem erases_conclude (returnType : Option Name) {result : Option (Value Nat)}
    {result' : Option (Value Data)} (h : ResultShows heap result result') :
    Erases heap ((counted setting program).conclude returnType result)
      ((plain setting program).conclude returnType result') Shows := by
  -- what was returned has to be what the head says, in both runs alike
  cases returnType with
  | none =>
    cases result with
    | none =>
      cases result' with
      | none => exact .pure fun _ _ => .nothing
      | some => cases h
    | some =>
      cases result' with
      | none => cases h
      | some => exact .throw
  | some =>
    cases result with
    | none =>
      cases result' with
      | none => exact .throw
      | some => cases h
    | some =>
      cases result' with
      | none => cases h
      | some =>
        rw [conclude, conclude]
        refine Erases.bind (erases_expect h _) fun _ _ later hgrows _ => ?_
        exact .pure fun last hlast => Shows.grows h (hgrows.trans hlast)

theorem erases_audit (before : Heap) (before' : Unit) (value : Value Nat) (value' : Value Data) :
    Erases heap ((counted setting program).audit before value)
      ((plain setting program).audit before' value') fun _ _ _ => True := by
  intro state state' hstate
  have haudit : (counted setting program).audit before value state =
      if Heap.balanced before state.store value then .ok () state else .error
        .unbalanced state := by
    simp only [audit, bind_get]
    cases hbalanced : Heap.balanced before state.store value <;>
      simp [Memory.counted, hbalanced] <;> rfl
  rw [haudit]
  cases Heap.balanced before state.store value with
  | true => exact ⟨_, _, rfl, trivial, hstate⟩
  | false => exact .inl (.inr (.inr rfl))

theorem erases_invoke (h : EvaluatorsErase evaluate evaluate') (function : FunctionDef)
    {values : List (Value Nat)} {values' : List (Value Data)}
    (hvalues : Forall₂ (Shows heap) values values') :
    Erases heap ((counted setting program).invoke evaluate function values)
      ((plain setting program).invoke evaluate' function values') Shows := by
  unfold invoke
  refine Erases.bind (erases_expectAll hvalues _) fun _ _ first hfirst _ => ?_
  refine Erases.get_bind fun state state' hstate => ?_
  have hstart : Forall₂ (Shows state.store) values values' :=
    hvalues.imp fun _ _ hshows => hshows.grows (hfirst.trans hstate.grows)
  refine Erases.bind (erases_modifyEnv fun later _ _ hlater _ => .ofArguments _
    (hstart.imp fun _ _ hshows => hshows.grows hlater)) fun _ _ second hsecond _ => ?_
  refine Erases.bind (erases_execAll h function.body) fun result result' third hthird hresult => ?_
  refine Erases.bind (erases_modifyEnv fun later _ _ hlater _ =>
    hstate.env.grows (hsecond.trans (hthird.trans hlater))) fun _ _ fourth hfourth _ => ?_
  refine Erases.bind (erases_conclude _ (hresult.grows hfourth)) fun value value' fifth _ hvalue =>
    ?_
  refine Erases.bind (erases_audit _ _ value value') fun _ _ last hlast _ => ?_
  exact .pure fun _ hgrows => hvalue.grows (hlast.trans hgrows)

end Statements

theorem builtin?_counted (name : String) (h : Forall₂ (Shows heap) values values') :
    ((counted setting program).builtin? name values = none ∧
      (plain setting program).builtin? name values' = none) ∨
    ∃ action action', (counted setting program).builtin? name values = some action ∧
      (plain setting program).builtin? name values' = some action' ∧
      Erases heap action action' Shows := by
  by_cases hprint : name = "print"
  · subst hprint
    rcases h with _ | ⟨hvalue, _ | ⟨hsecond, hrest⟩⟩
    · exact .inl ⟨rfl, rfl⟩
    · exact .inr ⟨_, _, rfl, rfl, erases_print hvalue⟩
    · exact .inl ⟨rfl, rfl⟩
  · by_cases hinput : name = "input"
    · subst hinput
      rcases h with _ | ⟨hvalue, hrest⟩
      · exact .inr ⟨_, _, rfl, rfl, erases_input⟩
      · exact .inl ⟨rfl, rfl⟩
    · exact .inl ⟨builtin?_eq_none hprint hinput, builtin?_eq_none hprint hinput⟩

/-- **A counted call shows what the plain call does**, unless something goes wrong with
references. -/
theorem callersErase (setting : Setting) (program : Program) (depth : Nat) :
    CallersErase ((counted setting program).call (counted setting program).eval depth)
      ((plain setting program).call (plain setting program).eval depth) := by
  intro name heap values values' hvalues
  rcases builtin?_counted name hvalues with
    ⟨hbuiltin, hbuiltin'⟩ | ⟨action, action', hbuiltin, hbuiltin', herases⟩
  · cases hdefinition : (counted setting program).definition? name with
    | none =>
      rw [call_undefined hbuiltin hdefinition, call_undefined hbuiltin' hdefinition]
      exact .throw
    | some function =>
      cases depth with
      | zero =>
        rw [call_zero hbuiltin hdefinition, call_zero hbuiltin' hdefinition]
        exact .throw
      -- the body calls functions one level further down
      | succ depth =>
        rw [call_succ hbuiltin hdefinition, call_succ hbuiltin' hdefinition]
        exact erases_invoke (fun expression _ => erases_eval (callersErase setting program depth)
          expression) function hvalues
  · rw [call_builtin hbuiltin, call_builtin hbuiltin']
    exact herases

end Actions

end FrontEnd.Execution
