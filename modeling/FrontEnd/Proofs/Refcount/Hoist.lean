import FrontEnd.Proofs.Refcount.Shape

/-!
# Arguments that were moved

Lowered code keeps in temporaries what the first stage of an expression computes, and what is left
of the expression is its second stage (`relates_hoist`). The two runs are compared in environments
of which one has variables more: those with names that the program does not name (`Covers`).

What stays of an expression refers to its temporaries. So it does not only do its part right behind
them, but in every later environment in which they still have their values (`Answers`).
-/

namespace FrontEnd.Execution

open Refcount Lower Machine List

/-! ### Environments with more variables -/

/-- An environment without the variables that have other names than the given ones. -/
def Env.named (own : List String) (env : Env Data) : Env Data :=
  env.map (·.filter (·.name ∈ own))

namespace Env

variable {own : List String} {name : String} {slot : Slot Data}

theorem find_named (h : name ∈ own) (env : Env Data) :
    find (named own env) name = find env name := by
  induction env with
  | nil => rfl
  | cons frame outer ih =>
    have hframe : (frame.filter (·.name ∈ own)).find? (·.name = name) =
        frame.find? (·.name = name) := by
      rw [find?_filter]
      congr 1
      funext slot
      by_cases hslot : slot.name = name
      · simp [hslot, h]
      · simp [hslot]
    rw [named, map_cons, find_cons, find_cons, hframe]
    rw [named] at ih
    rw [ih]

theorem named_declare (h : slot.name ∈ own) (env : Env Data) :
    named own (declare env slot) = declare (named own env) slot := by
  cases env with
  | nil => rfl
  | cons => simp [named, declare, h]

theorem named_declare_of_not_mem (h : slot.name ∉ own) (env : Env Data) :
    named own (declare env slot) = named own env := by
  cases env with
  | nil => rfl
  | cons => simp [named, declare, h]

theorem filter_updateFrame (h : name ∈ own) (value : Value Data) (frame : List (Slot Data)) :
    (updateFrame name value frame).filter (·.name ∈ own) =
      updateFrame name value (frame.filter (·.name ∈ own)) := by
  induction frame with
  | nil => rfl
  | cons slot frame ih =>
    by_cases hslot : slot.name = name
    · simp [updateFrame, hslot, h]
    · by_cases hown : slot.name ∈ own
      · simp [updateFrame, hslot, hown, ih]
      · simp [updateFrame, hslot, hown, ih]

theorem named_update (h : name ∈ own) (value : Value Data) (env : Env Data) :
    named own (update name value env) = update name value (named own env) := by
  induction env with
  | nil => rfl
  | cons frame outer ih =>
    have hany : (frame.filter (·.name ∈ own)).any (·.name = name) = frame.any (·.name = name) := by
      rw [any_filter]
      congr 1
      funext slot
      by_cases hslot : slot.name = name
      · simp [hslot, h]
      · simp [hslot]
    have houter : named own (frame :: outer) = frame.filter (·.name ∈ own) :: named own outer := rfl
    rw [houter, update, update, hany]
    split
    · rw [← filter_updateFrame h]
      rfl
    · rw [← ih]
      rfl

/-- A variable that was just declared gets a value. -/
theorem update_declare {env : Env Data} (h : env ≠ []) (slot : Slot Data) (value : Value Data) :
    update slot.name value (declare env slot) = declare env { slot with value := value } := by
  cases env with
  | nil => exact absurd rfl h
  | cons => simp [declare, update, updateFrame]

end Env

/-- The second environment has variables more, with names that are taken and that the program does
not name. -/
structure Covers (own taken : List String) (env env' : Env Data) : Prop where
  named : env'.named own = env
  slots : ∀ slot ∈ env'.flatten, slot.name ∈ taken
  ne_nil : env' ≠ []
  own : own ⊆ taken

namespace Covers

variable {own taken taken' : List String} {env env' : Env Data}

theorem find (h : Covers own taken env env') {name : String} (hname : name ∈ own) :
    Env.find env' name = Env.find env name := by
  rw [← h.named, Env.find_named hname]

theorem mono (h : Covers own taken env env') (htaken : taken ⊆ taken') :
    Covers own taken' env env' :=
  ⟨h.named, fun slot hslot => htaken (h.slots slot hslot), h.ne_nil, Subset.trans h.own htaken⟩

/-- A variable with a name that was free. -/
theorem declare_free (h : Covers own taken env env') (htaken : taken ⊆ taken') {slot : Slot Data}
    (hfree : slot.name ∉ taken) (hslot : slot.name ∈ taken') :
    Covers own taken' env (env'.declare slot) where
  named := by rw [Env.named_declare_of_not_mem fun hown => hfree (h.own hown), h.named]
  slots other hother := by
    cases env' with
    | nil => exact absurd rfl h.ne_nil
    | cons =>
      rw [Env.declare, flatten_cons, cons_append, mem_cons] at hother
      rcases hother with rfl | hother
      · exact hslot
      · exact htaken (h.slots other hother)
  ne_nil := by
    cases env' with
    | nil => exact absurd rfl h.ne_nil
    | cons => exact cons_ne_nil _ _
  own := Subset.trans h.own htaken

end Covers

/-- The variable of a run that belongs to a variable of lowering. -/
def slotOf {ρ : Type} (v : Local) (value : Value ρ) : Slot ρ :=
  ⟨v.name, v.type, v.location, value⟩

/-! ### What stays of an expression -/

section Lowered

variable {setting : Setting} {source lowered : Program} {call call' : Machine.Caller Data Unit}
  {types : ReturnTypes} {own : List String} {env env' : Env Data} {known before after : List String}
  {action : Run Data Unit (Value Data)} {α β : Type} {type : String} {excused : Halt → Prop}
  {next : α → Run Data Unit β} {state : Lowering} {expressions : List Expr}
  {actions : List (Run Data Unit (Value Data))}

/-- An expression does what an action does, in every environment in which the known names look as
they do in the given one. -/
def Answers (setting : Setting) (lowered : Program) (call' : Machine.Caller Data Unit)
    (known : List String) (env env' : Env Data) (action : Run Data Unit (Value Data))
    (expression : Expr) : Prop :=
  ∀ later, (∀ name ∈ known, Env.find later name = Env.find env' name) →
    Agrees (· = .stuck) env later action ((plain setting lowered).eval call' expression)

theorem Answers.later {known' : List String} {after : Env Data} {expression : Expr}
    (h : Answers setting lowered call' known env env' action expression)
    (hfind : ∀ name ∈ known, Env.find after name = Env.find env' name) (hknown : known ⊆ known') :
    Answers setting lowered call' known' env after action expression :=
  fun later hlater => h later fun name hname =>
    (hlater name (hknown hname)).trans (hfind name hname)

theorem answers_name {name : Name} (hknown : name.text ∈ known)
    (hglobal : (plain setting lowered).global? name.text = (plain setting source).global? name.text)
    (hfind : Env.find env' name.text = Env.find env name.text) :
    Answers setting lowered call' known env env' ((plain setting source).readName name.text)
      (.name name) := by
  intro later hlater
  rw [eval]
  exact agrees_readName hglobal ((hlater _ hknown).trans hfind)

/-- A temporary gives the value that it was given. -/
theorem answers_use {v : Local} {value : Value Data} (hknown : v.name ∈ known)
    (hfind : Env.find env' v.name = some (slotOf v value)) :
    Answers setting lowered call' known env env' (pure value) v.use := by
  intro later hlater
  rw [Local.use, eval]
  rintro state state' ⟨⟨rfl, rfl⟩, hworld⟩
  refine ⟨value, state', ?_, rfl, ⟨rfl, rfl⟩, hworld⟩
  rw [readName_plain, hlater _ hknown, hfind]
  rfl

/-- The calls give values of the types that are known for them. -/
def CallsFit (types : ReturnTypes) (call : Machine.Caller Data Unit) : Prop :=
  ∀ name values, Holds (fun _ => True) (call name values)
    (fun value _ => ∀ type, (types.lookup name).join = some type → Fits value type) fun _ => True

/-- Nothing is known of what an action gives. -/
theorem holds_true (action : Run Data Unit α) :
    Holds (fun _ => True) action (fun _ _ => True) fun _ => True := by
  intro state _
  cases action state <;> trivial

/-- What the first stage of an expression leaves gives a value of the type of the expression. -/
theorem holds_settle_fits (hfits : CallsFit types call) (eager : Expr → Bool) (expression : Expr)
    (htype : valueType types expression = some type) :
    Holds (fun _ => True) ((plain setting source).settle eager call expression)
      (fun action _ => Holds (fun _ => True) action (fun value _ => Fits value type) fun _ =>
        True) fun _ => True := by
  cases expression with
  | name => cases htype
  | integer digits location | string text location =>
    cases htype
    rw [Machine.settle]
    exact .pure fun _ _ _ _ => rfl
  | call function =>
    rw [Machine.settle]
    refine Holds.bind (holds_true _) fun actions => .pure fun _ _ => ?_
    refine Holds.bind (holds_true _) fun values => .apply trivial ?_
    rintro function rfl
    exact (hfits _ values).weaken (fun _ => id) fun value _ hvalue => hvalue type htype

/-! ### Temporaries -/

/-- A statement by itself that cannot end the function. -/
theorem relates_execAll_append {P : State Data Unit → State Data Unit → Prop}
    {Q : α → State Data Unit → State Data Unit → Prop}
    {R : β → Option (Value Data) → State Data Unit → State Data Unit → Prop}
    {action : Run Data Unit α} {evaluate : Expr → Run Data Unit (Value Data)}
    {block rest : List Stmt}
    (h : Relates excused P action ((plain setting lowered).execAll evaluate block)
      fun value result state state' => result = none ∧ Q value state state')
    (hnext : ∀ value,
      Relates excused (Q value) (next value) ((plain setting lowered).execAll evaluate rest) R) :
    Relates excused P (action >>= next) ((plain setting lowered).execAll evaluate
      (block ++ rest)) R := by
  rw [execAll_append]
  refine Relates.bind h fun value result state state' hstate => ?_
  obtain ⟨rfl, hQ⟩ := hstate
  exact hnext value state state' hQ

theorem relates_of_fixed {R : Env Data → Env Data → Prop}
    {Q : α → β → State Data Unit → State Data Unit → Prop} {action : Run Data Unit α}
    {other : Run Data Unit β}
    (h : ∀ env env', R env env' → Relates excused (Beside (Fixed env env')) action other Q) :
    Relates excused (Beside R) action other Q :=
  fun state state' hstate => h _ _ hstate.1 state state' ⟨⟨rfl, rfl⟩, hstate.2⟩

/-- Retaining the value of a temporary is of no interest here. -/
theorem execAll_setup (evaluate : Expr → Run Data Unit (Value Data)) (temp : Temp) :
    (plain setting lowered).execAll evaluate temp.setup = (do
      modifyEnv (·.declare (slotOf temp.place .unset))
      let value ← evaluate temp.value
      (plain setting lowered).assign temp.place.name value
      return none) := by
  have hretain : (plain setting lowered).execAll evaluate
      (if temp.isCopy then [.retain temp.place.name temp.place.location] else []) = pure none := by
    cases temp.isCopy <;> rfl
  simp only [Temp.setup, cons_append, nil_append, execAll, exec, bind_assoc, pure_bind, hretain]
  rfl

/-- A temporary is declared and gets the value of its expression. -/
theorem relates_setup {temp : Temp} (hne : env' ≠ []) (hfree : temp.place.name ∉ known)
    (hanswers : Answers setting lowered call' known env env' action temp.value)
    (hfits : Holds (fun _ => True) action (fun value _ => Fits value temp.place.type) fun _ =>
      True) :
    Relates (· = .stuck) (Beside (Fixed env env')) action
      ((plain setting lowered).execAll ((plain setting lowered).eval call') temp.setup)
      fun value result state state' => result = none ∧
        Beside (Fixed env (env'.declare (slotOf temp.place value))) state state' := by
  -- the new slot hides none of the known names
  have hfind : ∀ name ∈ known, Env.find (env'.declare (slotOf temp.place .unset)) name =
      Env.find env' name := by
    intro name hname
    rw [Env.find_declare hne, if_neg]
    rintro rfl
    exact hfree hname
  have hdeclare : ∀ state state', Beside (Fixed env env') state state' →
      ∃ value' after', (modifyEnv (·.declare (slotOf temp.place .unset)) : Run Data Unit Unit)
          state' = .ok value' after' ∧
        Beside (Fixed env (env'.declare (slotOf temp.place .unset))) state after' := by
    rintro state state' ⟨⟨rfl, rfl⟩, hworld⟩
    exact ⟨_, _, rfl, ⟨rfl, rfl⟩, hworld⟩
  rw [execAll_setup]
  refine Relates.right hdeclare fun _ => ?_
  rw [← bind_pure action]
  refine Relates.bind ((hanswers _ hfind).and_holds hfits) fun value value' state state' hstate =>
    ?_
  obtain ⟨hfits, rfl, ⟨henv, henv'⟩, hworld⟩ := hstate
  have hslot : Env.find state'.env temp.place.name = some (slotOf temp.place .unset) := by
    rw [henv', Env.find_declare hne]
    exact if_pos rfl
  -- setting the slot just declared is declaring it with the value
  have hset : Env.update temp.place.name value' state'.env =
      env'.declare (slotOf temp.place value') := by
    rw [henv']
    exact Env.update_declare hne (slotOf temp.place .unset) value'
  exact ⟨none, _, bind_of_ok (assign_plain hslot hfits), rfl, ⟨henv, hset⟩, hworld⟩

/-! ### The first stage -/

/-- Some expressions are ready: their temporaries have their values, and nothing that could be seen
before has changed. -/
structure Ready (setting : Setting) (lowered : Program) (call' : Machine.Caller Data Unit)
    (own before after : List String) (env env' : Env Data)
    (actions : List (Run Data Unit (Value Data))) (expressions : List Expr) (later : Env Data) :
    Prop where
  covers : Covers own after env later
  find : ∀ name ∈ before, Env.find later name = Env.find env' name
  answers : Forall₂ (Answers setting lowered call' after env later) actions expressions

/-- The temporaries of some expressions are set up while an action does the first stage of them. Of
the value of the action, `left` is the second stage. -/
def Prepares {α : Type} (setting : Setting) (lowered : Program) (call' : Machine.Caller Data Unit)
    (own before after : List String) (env env' : Env Data) (action : Run Data Unit α)
    (temps : List Temp) (left : α → List (Run Data Unit (Value Data))) (expressions : List Expr) :
    Prop :=
  Relates (· = .stuck) (Beside (Fixed env env')) action
    ((plain setting lowered).execAll ((plain setting lowered).eval call')
      (temps.flatMap Temp.setup))
    fun value result state state' => result = none ∧
      Beside (fun found later => found = env ∧
        Ready setting lowered call' own before after env env' (left value) expressions later)
        state state'

/-- A value gets a temporary. -/
theorem prepares_makeTemp {value : Expr} (hcovers : Covers own state.names.taken env env')
    (hanswers : Answers setting lowered call' state.names.taken env env' action value)
    (hfits : Holds (fun _ => True) action (fun value _ => Fits value type) fun _ => True) :
    Prepares setting lowered call' own state.names.taken (makeTemp value type state).2.names.taken
      env env' action [(makeTemp value type state).1] (fun value => [pure value])
      [(makeTemp value type state).1.use] := by
  have hfree : (makeTemp value type state).1.place.name ∉ state.names.taken :=
    name_makeTemp_not_mem value type
  have htaken : state.names.taken ⊆ (makeTemp value type state).2.names.taken :=
    (later_makeTemp value type).taken
  have hmem : (makeTemp value type state).1.place.name ∈
      (makeTemp value type state).2.names.taken :=
    name_makeTemp_mem value type
  rw [Prepares, flatMap_singleton]
  refine (relates_setup hcovers.ne_nil hfree hanswers hfits).weaken (fun _ _ => id) ?_
  rintro value' result found found' ⟨hresult, ⟨henv, henv'⟩, hworld⟩
  refine ⟨hresult, ⟨henv, ?_⟩, hworld⟩
  rw [henv']
  refine ⟨hcovers.declare_free htaken hfree hmem, fun name hname => ?_, .cons ?_ .nil⟩
  · rw [Env.find_declare hcovers.ne_nil, if_neg]
    rintro rfl
    exact hfree hname
  · refine answers_use hmem ?_
    rw [Env.find_declare hcovers.ne_nil]
    exact if_pos rfl

/-- Temporaries are set up one after the other. -/
theorem Prepares.append {γ : Type} {middle : List String} {action : Run Data Unit α}
    {left : α → List (Run Data Unit (Value Data))} {left' : β → List (Run Data Unit (Value Data))}
    {join : α → β → γ} {leftBoth : γ → List (Run Data Unit (Value Data))} {temps temps' : List Temp}
    {expressions' expressionsBoth : List Expr} {fact : α → Prop} (hsubset : before ⊆ middle)
    (h : Prepares setting lowered call' own before middle env env' action temps left expressions)
    (hfact : Holds (fun _ => True) action (fun value _ => fact value) fun _ => True)
    (hnext : ∀ value later, fact value →
      Ready setting lowered call' own before middle env env' (left value) expressions later →
      Prepares setting lowered call' own middle after env later (next value) temps'
        left' expressions')
    (hboth : ∀ value value' later later',
      Ready setting lowered call' own before middle env env' (left value) expressions later →
      Ready setting lowered call' own middle after env later (left' value') expressions' later' →
      Forall₂ (Answers setting lowered call' after env later') (leftBoth (join value value'))
        expressionsBoth) :
    Prepares setting lowered call' own before after env env'
      (action >>= fun value => next value >>= fun value' => pure (join value value'))
      (temps ++ temps') leftBoth expressionsBoth := by
  rw [Prepares, flatMap_append]
  -- the first half, with its fact about the value brought under the relation on states
  have hfirst : Relates (· = .stuck) (Beside (Fixed env env')) action
      ((plain setting lowered).execAll ((plain setting lowered).eval call')
        (temps.flatMap Temp.setup))
      fun value result state state' =>
      result = none ∧ Beside (fun found later => fact value ∧ found = env ∧
          Ready setting lowered call' own before middle env env' (left value) expressions later)
          state state' :=
    (h.and_holds hfact).weaken (fun _ _ => id) fun _ _ _ _ hstate =>
      ⟨hstate.2.1, ⟨hstate.1, hstate.2.2.1⟩, hstate.2.2.2⟩
  refine relates_execAll_append hfirst fun value => relates_of_fixed ?_
  rintro _ later ⟨hfact, rfl, hready⟩
  rw [← bind_pure ((plain setting lowered).execAll _ (temps'.flatMap Temp.setup))]
  refine Relates.bind (hnext value later hfact hready) fun value' result => .pure ?_
  intro state state' hstate
  obtain ⟨rfl, ⟨henv, hready'⟩, hworld⟩ := hstate
  refine ⟨rfl, ⟨henv, hready'.covers, fun name hname => ?_, ?_⟩, hworld⟩
  · exact (hready'.find name (hsubset hname)).trans (hready.find name hname)
  · exact hboth value value' later _ hready hready'

/-- An argument that is no variable, given that this is known for what is in it. -/
theorem prepares_hoistArgument (hfits : CallsFit types call) {argument : Expr}
    (hname : ∀ name, argument ≠ .name name) (htypes : state.returnTypes = types)
    (h : Prepares setting lowered call' own state.names.taken
      (hoist argument state).2.names.taken env env'
      ((plain setting source).settle (heapFirst types) call argument)
      (hoist argument state).1.2 ([·]) [(hoist argument state).1.1]) :
    Prepares setting lowered call' own state.names.taken
      (hoistArgument argument state).2.names.taken env env'
      ((plain setting source).settle (heapFirst types) call argument >>=
        advance (heapFirst types argument)) (hoistArgument argument state).1.2 ([·])
          [(hoistArgument argument state).1.1] := by
  rw [hoistArgument_eq hname, htypes]
  cases htype : (valueType types argument).filter isHeap with
  | none =>
    -- not on the heap: the argument stays where it is
    have heager : heapFirst types argument = false := by
      rw [heapFirst, Option.any_eq_false]
      simpa using Option.filter_eq_none_iff.mp htype
    have hadvance : advance false = (pure : _ → Run Data Unit (Run Data Unit (Value Data))) :=
      rfl
    rw [heager, hadvance, bind_pure]
    exact h
  | some =>
    -- on the heap: its value is computed now and kept in a temporary
    obtain ⟨htype, hheap⟩ := Option.filter_eq_some_iff.mp htype
    have heager : heapFirst types argument = true := by rw [heapFirst, htype]; exact hheap
    have hadvance : advance true = fun action : Run Data Unit (Value Data) =>
        action >>= fun value => (pure (pure value) : Run Data Unit _) :=
      rfl
    rw [heager, hadvance]
    exact Prepares.append (later_hoist argument).taken h
      (holds_settle_fits hfits (heapFirst types) argument htype)
      (fun _ _ hfits hready =>
        prepares_makeTemp hready.covers (forall₂_cons.mp hready.answers).1 hfits)
      fun _ _ _ _ _ hready => hready.answers

theorem agrees_finishAll_evalAll
    (h : Forall₂ (fun action expression =>
      Agrees (· = .stuck) env env' action ((plain setting lowered).eval call' expression)) actions
        expressions) :
    Agrees (· = .stuck) env env' (finishAll actions) ((plain setting lowered).evalAll
      call' expressions) := by
  induction h with
  | nil =>
    rw [finishAll, evalAll]
    exact matches_done
  | cons hfirst _ ih =>
    rw [finishAll, evalAll]
    refine Relates.step hfirst fun value => ?_
    refine Relates.step ih fun values => ?_
    exact matches_done

/-- A call whose arguments are ready. -/
theorem Ready.answers_call {later : Env Data}
    (h : Ready setting lowered call' own before after env env' actions expressions later)
    (hcall : CallersAgree (· = .stuck) call call') {function : Expr}
    (hfunction : function.names ⊆ own) {location : Location} :
    Answers setting lowered call' after env later (finishAll actions >>= apply call function)
      (.call function expressions location) := by
  intro last hlast
  rw [eval]
  have hfind : ∀ name ∈ function.names, Env.find last name = Env.find env name := by
    intro name hname
    have hown := hfunction hname
    rw [hlast name (h.covers.own hown), h.covers.find hown]
  exact Relates.step
    (agrees_finishAll_evalAll (h.answers.imp fun _ _ hanswers => hanswers last hlast))
    fun values => agrees_apply hcall hfind values

mutual

/-- **Setting up the temporaries of an expression is its first stage**, and the expression that uses
them is its second one. -/
theorem prepares_hoist
    (hglobal : ∀ name, (plain setting lowered).global? name = (plain setting source).global? name)
    (hcall : CallersAgree (· = .stuck) call call') (hfits : CallsFit types call) :
    ∀ (expression : Expr) {state : Lowering} {env' : Env Data}, expression.names ⊆ own →
    state.returnTypes = types → Covers own state.names.taken env env' →
    Prepares setting lowered call' own state.names.taken
      (hoist expression state).2.names.taken env env'
      ((plain setting source).settle (heapFirst types) call expression)
      (hoist expression state).1.2 ([·]) [(hoist expression state).1.1]
  | .name name, state, env', hnames, htypes, hcovers => by
    have hown : name.text ∈ own := hnames (by simp [Expr.names])
    rw [hoist_of_not_call rfl, Machine.settle]
    refine .pure fun _ _ hstate => ⟨rfl, ⟨hstate.1.1, ?_⟩, hstate.2⟩
    rw [hstate.1.2]
    exact ⟨hcovers, fun _ _ =>
      rfl, .cons (answers_name (hcovers.own hown) (hglobal _) (hcovers.find hown)) .nil⟩
  | .integer digits location, state, env', hnames, htypes, hcovers
  | .string text location, state, env', hnames, htypes, hcovers => by
    rw [hoist_of_not_call rfl, Machine.settle]
    refine .pure fun _ _ hstate => ⟨rfl, ⟨hstate.1.1, ?_⟩, hstate.2⟩
    rw [hstate.1.2]
    exact ⟨hcovers, fun _ _ => rfl, .cons (fun later _ => by rw [eval]; exact agrees_create _) .nil⟩
  | .call function arguments location, state, env', hnames, htypes, hcovers => by
    have hfunction : function.names ⊆ own :=
      fun name hname => hnames (by simp [Expr.names, hname])
    have harguments : Expr.namesOfAll arguments ⊆ own :=
      fun name hname => hnames (by simp [Expr.names, hname])
    rw [hoist_call, Machine.settle, Prepares, ← bind_pure ((plain setting lowered).execAll _ _)]
    refine Relates.bind (prepares_hoistArguments hglobal hcall hfits arguments harguments
      htypes hcovers)
      fun actions result => .pure fun _ _ hstate => ?_
    obtain ⟨hresult, ⟨henv, hready⟩, hworld⟩ := hstate
    refine ⟨hresult, ⟨henv, hready.covers, hready.find, ?_⟩, hworld⟩
    exact .cons (hready.answers_call hcall hfunction) .nil

theorem prepares_hoistArguments
    (hglobal : ∀ name, (plain setting lowered).global? name = (plain setting source).global? name)
    (hcall : CallersAgree (· = .stuck) call call') (hfits : CallsFit types call) :
    ∀ (arguments : List Expr) {state : Lowering}
      {env' : Env Data}, Expr.namesOfAll arguments ⊆ own →
    state.returnTypes = types → Covers own state.names.taken env env' →
    Prepares setting lowered call' own state.names.taken
      (hoistArguments arguments state).2.names.taken env env'
      ((plain setting source).settleAll (heapFirst types) call arguments)
      (hoistArguments arguments state).1.2 id (hoistArguments arguments state).1.1
  | [], state, env', hnames, htypes, hcovers => by
    rw [hoistArguments_nil, settleAll]
    refine .pure fun _ _ hstate => ⟨rfl, ⟨hstate.1.1, ?_⟩, hstate.2⟩
    rw [hstate.1.2]
    exact ⟨hcovers, fun _ _ => rfl, .nil⟩
  | argument :: arguments, state, env', hnames, htypes, hcovers => by
    have hfirst : argument.names ⊆ own :=
      fun name hname => hnames (by simp [Expr.namesOfAll, hname])
    have hrest : Expr.namesOfAll arguments ⊆ own :=
      fun name hname => hnames (by simp [Expr.namesOfAll, hname])
    rcases argument.name_or_ne with ⟨name, rfl⟩ | hname
    · -- a variable stays, and is read when the temporaries of the other arguments are there
      have hown : name.text ∈ own := hfirst (by simp [Expr.names])
      have hstays : heapFirst types (.name name) = false := rfl
      rw [hoistArguments_name, settleAll, Machine.settle, pure_bind, hstays,
        advance, if_neg Bool.false_ne_true, pure_bind, Prepares,
        ← bind_pure ((plain setting lowered).execAll _ _)]
      refine Relates.bind (prepares_hoistArguments hglobal hcall hfits arguments hrest
        htypes hcovers)
        fun actions result => .pure fun _ _ hstate => ?_
      obtain ⟨hresult, ⟨henv, hready⟩, hworld⟩ := hstate
      exact ⟨hresult, ⟨henv, hready.covers, hready.find, .cons
        (answers_name (hready.covers.own hown) (hglobal _) (hready.covers.find hown))
        hready.answers⟩, hworld⟩
    · have hlater : state.Later (hoistArgument argument state).2 :=
        later_hoistArgument (later_hoist argument)
      rw [hoistArguments_cons hname, settleAll, ← bind_assoc]
      refine Prepares.append hlater.taken (prepares_hoistArgument hfits hname htypes
        (prepares_hoist hglobal hcall hfits argument hfirst htypes hcovers)) (holds_true _)
        (fun _ _ _ hready => prepares_hoistArguments hglobal hcall hfits arguments hrest
          (hlater.returnTypes.trans htypes) hready.covers) ?_
      intro action actions later later' hready hready'
      refine .cons ((forall₂_cons.mp hready.answers).1.later hready'.find ?_) hready'.answers
      exact (later_hoistArguments arguments).taken

end

end Lowered

end FrontEnd.Execution
