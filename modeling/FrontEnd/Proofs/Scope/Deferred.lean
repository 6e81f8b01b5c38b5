import FrontEnd.Proofs.Scope.File
import FrontEnd.Proofs.Scope.Intact
import FrontEnd.Proofs.Scope.Ordered
import FrontEnd.Proofs.Scope.Settled

/-!
# Deferred effects do what direct changes do

Checking a program by noting effects and handing them on body by body gives the same result and the
same warnings as checking it on one stack where everything is done at once, in whatever order the
effects are handed on, and no effect is lost on the way (`check_eq_direct`).

The proof is a simulation. At every moment the scope with its effects stands for the stack of the
direct way (`Scope.settled`), and each action of one way does to the scope what the action of the
other way does to the stack (`Simulates`). Actions are put together from smaller ones, and so are
the simulations (`SimulatesAt.bind`).
-/

namespace FrontEnd

open List

/-- A scope whose innermost level is that of a body. -/
structure Scope.InBody (scope : Scope) : Prop where
  nested : Nested scope.levels
  inner : scope.own.kind = .inner

variable {α β : Type}

/-! ### Reading moves no variable -/

/-- Where the variable stands that a name means. -/
def Scope.place (scope : Scope) (name : String) : Option (ScopeKind × Nat) :=
  (scope.lookup name).map fun binding => (binding.kind, binding.depth)

/-- Noting that variables are read leaves all of them where they are. -/
theorem Scope.ReadMore.place_eq {scope after : Scope} (h : scope.ReadMore after) (name : String) :
    after.place name = scope.place name := by
  have hunread (table : Table) :
      table.unread.lookup name = (table.lookup name).map Variable.unread := by
    induction table with
    | nil => rfl
    | cons entry table ih => grind [Table.unread]
  have hsome : (after.own.table.lookup name).map Variable.unread =
      (scope.own.table.lookup name).map .unread := by
    rw [← hunread, ← hunread, h.own.table]
  change (lookupIn (after.own :: after.enclosing) name).map _ =
    (lookupIn (scope.own :: scope.enclosing) name).map _
  rw [lookupIn_cons, lookupIn_cons, h.enclosing]
  cases hafter : after.own.table.lookup name with
  | some =>
    rw [hafter] at hsome
    obtain ⟨old, hold, -⟩ := Option.map_eq_some_iff.mp hsome.symm
    simp [hold, h.own.kind, h.own.depth]
  | none =>
    rw [hafter] at hsome
    rw [Option.map_eq_none_iff.mp hsome.symm]

namespace Ordered

variable {state : State} {action : Action α} {direct : Direct.Action α} {next : α → Action β}
  {directNext : α → Direct.Action β} {scope : Scope} {name : String} {binding : Binding}
  {effects : Effects} {order : Order} {orders : Nat → Order}

/-- The state of direct checking that a state stands for. -/
def State.settled (state : State) : Direct.State :=
  ⟨state.scope.settled, state.warnings⟩

/-- What every action in a body leaves as it is: the levels around the innermost one, and the
account of lost effects. -/
structure Keeps (before after : State) : Prop where
  inBody : after.scope.InBody
  enclosing : after.scope.enclosing = before.scope.enclosing
  lost : after.lost = before.lost

theorem Keeps.refl (h : state.scope.InBody) : Keeps state state :=
  ⟨h, rfl, rfl⟩

theorem Keeps.trans {first second third : State} (h : Keeps first second)
    (h' : Keeps second third) :
    Keeps first third :=
  ⟨h'.inBody, h'.enclosing.trans h.enclosing, h'.lost.trans h.lost⟩

/-- From a state on, an action does to the scope what another one does to the stack. If it fails,
the two have given the same error and the same warnings, and nothing else is asked for. -/
def SimulatesAt (state : State) (action : Action α) (direct : Direct.Action α) : Prop :=
  match action state with
  | .ok value after => direct state.settled = .ok value after.settled ∧ Keeps state after
  | .error error after =>
    (∃ stack, direct state.settled = .error error ⟨stack, after.warnings⟩) ∧
      after.lost = state.lost

/-- In every body, an action does to the scope what another one does to the stack. -/
def Simulates (action : Action α) (direct : Direct.Action α) : Prop :=
  ∀ state, state.scope.InBody → SimulatesAt state action direct

theorem SimulatesAt.bind (h : SimulatesAt state action direct)
    (hnext : ∀ value after, action state = .ok value after → Keeps state after →
      SimulatesAt after (next value) (directNext value)) :
    SimulatesAt state (action >>= next) (direct >>= directNext) := by
  unfold SimulatesAt at h ⊢
  simp only [Bind.bind, EStateM.bind]
  cases haction : action state with
  | error =>
    rw [haction] at h
    obtain ⟨⟨stack, hdirect⟩, hlost⟩ := h
    exact ⟨⟨stack, by rw [hdirect]⟩, hlost⟩
  | ok value after =>
    rw [haction] at h
    obtain ⟨hdirect, hkeeps⟩ := h
    have hrest := hnext value after haction hkeeps
    unfold SimulatesAt at hrest
    simp only [hdirect]
    cases hresult : next value after with
    | error =>
      rw [hresult] at hrest
      exact ⟨hrest.1, hrest.2.trans hkeeps.lost⟩
    | ok =>
      rw [hresult] at hrest
      exact ⟨hrest.1, hkeeps.trans hrest.2⟩

theorem Simulates.bind (h : Simulates action direct)
    (hnext : ∀ value, Simulates (next value) (directNext value)) :
    Simulates (action >>= next) (direct >>= directNext) :=
  fun state hbody => (h state hbody).bind fun value after _ hkeeps =>
    hnext value after hkeeps.inBody

theorem Simulates.map (h : Simulates action direct) (f : α → β) :
    Simulates (f <$> action) (f <$> direct) := by
  intro state hbody
  have hstate := h state hbody
  simp only [SimulatesAt, Functor.map, EStateM.map] at hstate ⊢
  cases haction : action state with
  | error =>
    rw [haction] at hstate
    obtain ⟨⟨stack, hdirect⟩, hlost⟩ := hstate
    exact ⟨⟨stack, by rw [hdirect]⟩, hlost⟩
  | ok =>
    rw [haction] at hstate
    exact ⟨by rw [hstate.1], hstate.2⟩

theorem simulates_pure (value : α) : Simulates (pure value) (pure value) :=
  fun _ hbody => ⟨rfl, .refl hbody⟩

theorem simulates_throw (error : Error) : Simulates (throw error : Action α)
    (throw error : Direct.Action α) :=
  fun state _ => ⟨⟨state.scope.settled, rfl⟩, rfl⟩

/-! ### Actions without an account -/

section Projects

variable {plain : Check α} {checking : Checking}

/-- What an action has done to the scope is done to the stack. -/
theorem Simulates.ok (h : Simulates action direct) (hplain : Projects action plain)
    (hbody : checking.scope.InBody) {value : α} {after : Checking}
    (hafter : plain checking = .ok value after) :
    direct ⟨checking.scope.settled, checking.warnings⟩ =
      .ok value ⟨after.scope.settled, after.warnings⟩ ∧ after.scope.InBody := by
  have hstate := h { toChecking := checking } hbody
  have hprojects := hplain { toChecking := checking }
  unfold SimulatesAt at hstate
  cases haction : action { toChecking := checking } with
  | error =>
    rw [haction] at hprojects
    cases hafter.symm.trans hprojects
  | ok =>
    rw [haction] at hprojects hstate
    cases hafter.symm.trans hprojects
    exact ⟨hstate.1, hstate.2.inBody⟩

/-- What can be done to the stack can be done to the scope. -/
theorem Simulates.of_ok (h : Simulates action direct) (hplain : Projects action plain)
    (hbody : checking.scope.InBody) {value : α} {final : Direct.State}
    (hfinal : direct ⟨checking.scope.settled, checking.warnings⟩ = .ok value final) :
    ∃ after, plain checking = .ok value after ∧ final = ⟨after.scope.settled, after.warnings⟩ ∧
      after.scope.InBody := by
  cases hcase : plain checking with
  | ok result after =>
    obtain ⟨hdirect, hafter⟩ := h.ok hplain hbody hcase
    cases hdirect.symm.trans hfinal
    exact ⟨after, rfl, rfl, hafter⟩
  | error error =>
    have hstate := h { toChecking := checking } hbody
    have hprojects := hplain { toChecking := checking }
    unfold SimulatesAt at hstate
    cases haction : action { toChecking := checking } with
    | ok =>
      rw [haction] at hprojects
      cases hcase.symm.trans hprojects
    | error =>
      rw [haction] at hstate
      obtain ⟨⟨stack, hdirect⟩, -⟩ := hstate
      cases hdirect.symm.trans hfinal

end Projects

/-! ### Lifted actions -/

theorem lift_bind (action : Check α) (next : α → Check β) :
    lift (action >>= next) = lift action >>= fun value => lift (next value) := by
  funext state
  simp only [lift, Bind.bind, EStateM.bind]
  cases action state.toChecking <;> rfl

/-- An action on the scope alone, in checking with an order. -/
def ofInfer (action : Infer α) : Action α :=
  lift (Check.infer action)

theorem ofInfer_bind (action : Infer α) (next : α → Infer β) :
    ofInfer (action >>= next) = ofInfer action >>= fun value => ofInfer (next value) := by
  funext state
  simp only [ofInfer, lift, Check.infer, Bind.bind, EStateM.bind]
  cases action state.scope <;> rfl

theorem ofInfer_map (f : α → β) (action : Infer α) :
    ofInfer (f <$> action) = f <$> ofInfer action := by
  funext state
  simp only [ofInfer, lift, Check.infer, Functor.map, EStateM.map]
  cases action state.scope <;> rfl

/-- After an action that only notes reads, names mean what they meant before. -/
theorem place_of_ofInfer {action : Infer α} (h : Quiet id action) {after : State} {value : α}
    (hafter : ofInfer action state = .ok value after) (name : String) :
    after.scope.place name = state.scope.place name := by
  simp only [ofInfer, lift, Check.infer] at hafter
  cases haction : action state.scope with
  | error => rw [haction] at hafter; cases hafter
  | ok =>
    have hread := h state.scope
    rw [haction] at hafter hread
    cases hafter
    exact hread.place_eq name

/-- A change of the innermost level that the stack follows. -/
theorem simulates_modifyScope {change : Scope → Scope} {directChange : Direct.Stack → Direct.Stack}
    (h : ∀ scope : Scope, scope.InBody → (change scope).settled = directChange scope.settled ∧
      (change scope).InBody ∧ (change scope).enclosing = scope.enclosing) :
    Simulates (lift (Check.modifyScope change)) (Direct.modifyStack directChange) := by
  intro state hbody
  obtain ⟨hsettled, hafter, henclosing⟩ := h state.scope hbody
  refine ⟨?_, hafter, henclosing, rfl⟩
  change EStateM.Result.ok () _ = EStateM.Result.ok () _
  congr 1
  exact congrArg (fun stack => Direct.State.mk stack state.warnings) hsettled.symm

theorem simulates_warn (warnings : List Warning) :
    Simulates (lift (Check.warn warnings)) (Direct.warn warnings) :=
  fun _ hbody => ⟨rfl, hbody, rfl, rfl⟩

/-- A test, and an error if it fails. -/
theorem simulates_unless (test : Prop) [Decidable test] (error : Error) :
    Simulates (lift (if test then pure () else throw error))
      (if test then pure () else throw error) := by
  split
  · exact simulates_pure ()
  · exact simulates_throw error

/-- An action that looks at the scope first, where the other one looks at the stack. -/
theorem simulates_get_bind {next : Checking → Check α} {directNext : Direct.State → Direct.Action α}
    (h : ∀ state : State, state.scope.InBody →
      SimulatesAt state (lift (next state.toChecking)) (directNext state.settled)) :
    Simulates (lift (get >>= next)) (get >>= directNext) :=
  h

/-! ### Names -/

/-- What the stack finds for a name, by what the scope finds. -/
theorem find_settled_of_none (hnested : Nested scope.levels) (h : scope.lookup name = none) :
    scope.settled.find name = none := by
  have hfind := find_settle hnested .none name
  rw [show lookupIn scope.levels name = none from h] at hfind
  exact hfind

theorem find_settled_of_some (hnested : Nested scope.levels)
    (h : scope.lookup name = some binding) :
    ∃ found, scope.settled.find name = some (found, binding.kind) ∧
      found.entity = binding.found.entity ∧ found.definedAt = binding.found.definedAt ∧
      found.initialized = scope.isInitialized name binding := by
  have hfind := find_settle hnested .none name
  rw [show lookupIn scope.levels name = some binding from h] at hfind
  obtain ⟨found, hfound, hentity, hplace, hinitialized⟩ := hfind
  exact ⟨found, hfound, hentity, hplace, by
    simpa [hasValue, Scope.isInitialized, Pending.none] using hinitialized⟩

/-- Names outside of bodies are in use anyway, so that reading them changes nothing. -/
theorem update_settle_of_outside {levels : List Level} (h : Nested levels) (pending : Pending)
    (hfound : lookupIn levels name = some binding) (hkind : binding.kind ≠ .inner) :
    (settle pending levels).update name (·.raise .used) = settle pending levels := by
  induction levels generalizing pending with
  | nil => rfl
  | cons level outer ih =>
    obtain ⟨-, -, hused, houter⟩ := h
    rw [lookupIn_cons] at hfound
    simp only [settle, Direct.Stack.update, Pending.lookup_ontoTable]
    cases hlookup : level.table.lookup name with
    | some =>
      rw [hlookup] at hfound
      cases hfound
      simp only [Option.map_some]
      congr 2
      simp only [Pending.ontoTable, Table.adjust, map_map]
      refine map_congr_left fun entry hentry => ?_
      have := hused hkind entry hentry
      simp [Pending.onto, Variable.raise, this]
    | none =>
      rw [hlookup] at hfound
      simp only [Option.map_none]
      rw [ih houter _ hfound]

/-- Marking the variable that a name stands for changes the stack there. -/
theorem settled_mark (hbody : scope.InBody) (hfound : scope.lookup name = some binding)
    (hkind : binding.kind = .inner) (flag : Flag) :
    (scope.modifyOwn (·.mark flag (binding.depth, name))).settled =
      scope.settled.update name (·.raise flag) ∧
      (scope.modifyOwn (·.mark flag (binding.depth, name))).InBody := by
  obtain ⟨hdepth, -, -, houter⟩ := hbody.nested
  refine ⟨?_, hbody.nested.mark flag (home_of_lookupIn hfound hkind), ?_⟩
  · calc settle .none (scope.own.mark flag (binding.depth, name) :: scope.enclosing)
        = settle (Pending.none.note flag (binding.depth, name)) scope.levels :=
          settle_mark houter hdepth _ _ _
      _ = (settle .none scope.levels).update name (·.raise flag) :=
          settle_note hbody.nested _ _ hfound
  · simpa [Scope.modifyOwn] using hbody.inner

/-- Resolving a name on the stack gives what it gives in the scope. -/
theorem resolve_settled (hbody : state.scope.InBody) (name : Name) :
    Direct.resolve name state.settled =
      match state.scope.resolve name with
      | .ok binding => .ok binding.found.entity state.settled
      | .error error => .error error state.settled := by
  simp only [Direct.resolve, Scope.resolve, Direct.bind_get]
  cases hlookup : state.scope.lookup name.text with
  | none =>
    simp only [State.settled, find_settled_of_none hbody.nested hlookup]
    rfl
  | some =>
    obtain ⟨found, hfind, hentity, -, hinitialized⟩ := find_settled_of_some hbody.nested hlookup
    simp only [State.settled, hfind, hentity, hinitialized]
    split
    · rfl
    · rfl

theorem simulates_typeNamed (name : Name) :
    Simulates (lift (Check.require (·.typeNamed name))) (Direct.typeNamed name) := by
  intro state hbody
  have hresolve := resolve_settled hbody name
  simp only [SimulatesAt, lift, Check.require, Scope.typeNamed, Direct.typeNamed, bind,
    EStateM.bind, Except.bind]
  cases hcase : state.scope.resolve name with
  | error => simp only [hcase] at hresolve ⊢; rw [hresolve]; exact ⟨⟨_, rfl⟩, trivial⟩
  | ok binding =>
    simp only [hcase] at hresolve ⊢
    rw [hresolve]
    simp only
    cases binding.found.entity with
    | type => exact ⟨rfl, .refl hbody⟩
    | value => exact ⟨⟨_, rfl⟩, rfl⟩

theorem lookup_of_resolve {name : Name} (h : scope.resolve name = .ok binding) :
    scope.lookup name.text = some binding := by
  unfold Scope.resolve at h
  cases hlookup : scope.lookup name.text with
  | none => rw [hlookup] at h; cases h
  | some =>
    rw [hlookup] at h
    simp only at h
    split at h
    · cases h; rfl
    · cases h

/-- Reading a name marks the variable that it stands for. -/
theorem simulates_readName (name : Name) :
    Simulates (ofInfer (Infer.readName name)) (Direct.readName name) := by
  intro state hbody
  have hresolve := resolve_settled hbody name
  simp only [SimulatesAt, ofInfer, lift, Check.infer, Infer.readName, Direct.readName,
    bind, EStateM.bind]
  cases hcase : state.scope.resolve name with
  | error => simp only [hcase] at hresolve ⊢; rw [hresolve]; exact ⟨⟨_, rfl⟩, trivial⟩
  | ok binding =>
    simp only [hcase] at hresolve ⊢
    rw [hresolve]
    have hfound := lookup_of_resolve hcase
    by_cases hkind : binding.kind = .inner
    · obtain ⟨hmark, hafter⟩ := settled_mark hbody hfound hkind .used
      rw [hkind]
      refine ⟨?_, hafter, rfl, rfl⟩
      exact congrArg (fun stack => EStateM.Result.ok _ (Direct.State.mk stack _)) hmark.symm
    · have hmark : state.scope.markUsed name.text binding.kind binding.depth = state.scope := by
        simp [Scope.markUsed, Scope.modifyOwn, Level.markUsed, hkind]
      rw [hmark]
      refine ⟨?_, .refl hbody⟩
      exact congrArg (fun stack => EStateM.Result.ok _ (Direct.State.mk stack _))
        (update_settle_of_outside hbody.nested .none hfound hkind)

/-! ### Expressions -/

theorem simulates_needValue (location : Location) (entity : Option Entity) :
    Simulates (ofInfer (Infer.needValue location entity)) (Direct.needValue location entity) := by
  cases entity with
  | some entity => exact simulates_pure entity
  | none => exact simulates_throw _

theorem simulates_applySignature (signature : Signature) (arguments : List Entity)
    (location : Location) :
    Simulates (ofInfer (Infer.applySignature signature arguments location))
      (Direct.applySignature signature arguments location) := by
  unfold Infer.applySignature Direct.applySignature
  split
  · exact simulates_pure _
  · exact simulates_throw _

mutual

theorem simulates_infer :
    ∀ expression, Simulates (ofInfer (Infer.infer expression)) (Direct.infer expression)
  | .name name => by
    rw [Infer.infer, Direct.infer]
    rw [ofInfer_map]
    exact (simulates_readName name).map some
  | .integer _ _ | .string _ _ => by
    rw [Infer.infer, Direct.infer]
    exact simulates_pure _
  | .call function arguments location => by
    rw [Infer.infer, Direct.infer]
    simp only [ofInfer_bind]
    refine (simulates_infer function).bind fun callee => ?_
    refine (simulates_needValue _ _).bind fun entity => ?_
    cases entity.signature? with
    | none => exact simulates_throw _
    | some =>
      simp only [ofInfer_bind]
      exact (simulates_inferArguments arguments).bind fun _ => simulates_applySignature _ _ _

theorem simulates_inferArguments : ∀ arguments,
    Simulates (ofInfer (Infer.inferArguments arguments)) (Direct.inferArguments arguments)
  | [] => by
    rw [Infer.inferArguments, Direct.inferArguments]
    exact simulates_pure _
  | argument :: arguments => by
    rw [Infer.inferArguments, Direct.inferArguments]
    simp only [ofInfer_bind]
    refine (simulates_infer argument).bind fun entity => ?_
    refine (simulates_needValue _ _).bind fun entity => ?_
    exact (simulates_inferArguments arguments).bind fun _ => simulates_pure _

end

theorem simulates_inferValue (expression : Expr) :
    Simulates (ofInfer (Infer.inferValue expression)) (Direct.inferValue expression) := by
  unfold Infer.inferValue Direct.inferValue
  rw [ofInfer_bind]
  exact (simulates_infer expression).bind fun _ => simulates_needValue _ _

/-! ### Statements -/

/-- Changes of the innermost level that leave its place among the levels alone. -/
theorem inBody_modifyOwn (hbody : scope.InBody) {change : Level → Level}
    (hkind : (change scope.own).kind = scope.own.kind)
    (hdepth : (change scope.own).depth = scope.own.depth)
    (houter : (change scope.own).outer = scope.own.outer) : (scope.modifyOwn change).InBody := by
  have hinner : (change scope.own).kind = .inner := hkind.trans hbody.inner
  obtain ⟨hlength, hnoted, -, hrest⟩ := hbody.nested
  exact ⟨⟨hdepth.trans hlength, fun flag address hmem => hnoted flag address (houter ▸ hmem),
    fun hne => absurd hinner hne, hrest⟩, hinner⟩

theorem simulates_emit (stmt : Stmt) : Simulates (lift (Check.emit stmt)) (Direct.emit stmt) :=
  simulates_modifyScope fun _ hbody => ⟨rfl, inBody_modifyOwn hbody rfl rfl rfl, rfl⟩

theorem simulates_declare (name : String) (new : Variable) :
    Simulates (lift (Check.modifyScope (·.declare name new))) (Direct.declare name new) := by
  refine simulates_modifyScope fun scope hbody => ⟨?_, inBody_modifyOwn hbody rfl rfl rfl, rfl⟩
  simp [Scope.settled, Scope.levels, settle, Scope.declare, Scope.modifyOwn, Level.declare,
    Direct.Stack.modifyTop]

/-- What a declaration must not hide on the stack is what it must not hide in the scope: the
variable that the name stands for, unless it stands further out and in a body. -/
theorem clash_settled (hbody : scope.InBody) (name : String) :
    match scope.lookup name with
    | none => scope.settled.clash name = none
    | some binding =>
      if binding.depth ≠ scope.own.depth ∧ binding.kind = .inner then
        scope.settled.clash name = none
      else ∃ found, scope.settled.clash name = some found ∧
        found.entity = binding.found.entity := by
  obtain ⟨hdepth, -, -, houter⟩ := hbody.nested
  rw [show scope.lookup name = lookupIn scope.levels name from rfl, Scope.levels, lookupIn_cons]
  simp only [Scope.settled, Scope.levels, settle, Direct.Stack.clash, Pending.lookup_ontoTable]
  cases scope.own.table.lookup name with
  | some => simp [Pending.onto]
  | none =>
    have hfind := find_settle houter (Pending.none.add scope.own.outer) name
    simp only [Option.map_none]
    cases hlookup : lookupIn scope.enclosing name with
    | none => simp only [hlookup] at hfind ⊢; rw [hfind]
    | some binding =>
      have hlt : binding.depth < scope.own.depth := hdepth ▸ depth_lt_of_lookupIn houter hlookup
      simp only [hlookup] at hfind ⊢
      obtain ⟨found, hfound, hentity, -⟩ := hfind
      rw [hfound]
      by_cases hkind : binding.kind = .inner
      · simp [hkind, Nat.ne_of_lt hlt]
      · simp [hkind, hentity]

/-- The name of a declaration is free on the stack if it is free in the scope. -/
theorem simulates_ensureFree (name : String) (location : Location) :
    Simulates (lift (Check.require (·.ensureFree name location)))
      (Direct.ensureFree name location) := by
  intro state hbody
  have hclash := clash_settled hbody name
  simp only [SimulatesAt, lift, Check.require, Scope.ensureFree, Direct.ensureFree, Direct.bind_get,
    State.settled]
  cases hlookup : state.scope.lookup name with
  | none =>
    simp only [hlookup] at hclash ⊢
    exact ⟨by rw [hclash]; rfl, .refl hbody⟩
  | some binding =>
    simp only [hlookup] at hclash ⊢
    split at hclash
    · next hfree =>
      rw [if_pos hfree]
      exact ⟨by rw [hclash]; rfl, .refl hbody⟩
    · next htaken =>
      obtain ⟨found, hfound, hentity⟩ := hclash
      -- the error names the sort of what was found, and both sides found the same entity
      have hsort : found.sort = binding.found.sort := by simp only [Variable.sort, hentity]
      rw [if_neg htaken, hfound]
      exact ⟨⟨state.scope.settled, by simp only [hsort]; rfl⟩, rfl⟩

theorem simulates_declareVariable (type : Name) (name : String) (location : Location) :
    Simulates (lift (Check.declareVariable type name location)) (Direct.declareVariable type
      name location) := by
  unfold Check.declareVariable Direct.declareVariable
  simp only [lift_bind]
  refine (simulates_ensureFree name location).bind fun _ => ?_
  exact (simulates_typeNamed type).bind fun _ => simulates_declare _ _

theorem simulates_undeclared (target : Name) (value : Expr) (location : Location) :
    Simulates (lift (Check.undeclared target value location))
      (Direct.undeclared target value location) := by
  intro state hbody
  have hvalue := simulates_inferValue value state hbody
  simp only [SimulatesAt, ofInfer, lift, Check.infer, Check.undeclared,
    Direct.undeclared] at hvalue ⊢
  cases hcase : Infer.inferValue value state.scope with
  | error =>
    simp only [hcase] at hvalue ⊢
    obtain ⟨⟨stack, hdirect⟩, -⟩ := hvalue
    exact ⟨⟨stack, by rw [hdirect]⟩, trivial⟩
  | ok entity =>
    simp only [hcase] at hvalue ⊢
    rw [hvalue.1]
    rcases entity with type | (type | _)
    · exact ⟨⟨_, rfl⟩, rfl⟩
    · exact ⟨⟨_, rfl⟩, rfl⟩
    · exact ⟨⟨_, rfl⟩, rfl⟩

theorem simulates_assign (target : Name) (value : Expr) (location : Location) :
    Simulates (lift (Check.assign target value location))
      (Direct.assign target value location) := by
  unfold Check.assign Direct.assign
  refine simulates_get_bind fun state hbody => ?_
  cases hlookup : state.scope.lookup target.text with
  | none =>
    have hfind := find_settled_of_none hbody.nested hlookup
    simp only [State.settled, hfind]
    exact simulates_undeclared target value location state hbody
  | some binding =>
    obtain ⟨found, hfind, hentity, -⟩ := find_settled_of_some hbody.nested hlookup
    simp only [State.settled, hfind, hentity]
    by_cases hkind : binding.kind = .inner
    · simp only [hkind, ne_eq, not_true_eq_false, if_false, lift_bind]
      refine (simulates_inferValue value state hbody).bind fun received after hafter hkeeps => ?_
      by_cases hreceived : received = binding.found.entity
      · simp only [hreceived, not_true_eq_false, if_false]
        -- the value may have read the variable, but it stands where it stood before
        have hplace := place_of_ofInfer (Infer.quiet_inferValue value) hafter target.text
        obtain ⟨binding', hlookup', hkind', hdepth'⟩ : ∃ binding',
            after.scope.lookup target.text = some binding' ∧ binding'.kind = .inner ∧
              binding'.depth = binding.depth := by
          simpa [Scope.place, hlookup, hkind] using hplace
        obtain ⟨hmark, hbody'⟩ := settled_mark hkeeps.inBody hlookup' hkind' .initialized
        rw [hdepth'] at hmark hbody'
        refine ⟨?_, hbody', rfl, rfl⟩
        exact congrArg (fun stack => EStateM.Result.ok () (Direct.State.mk stack _)) hmark.symm
      · simp only [hreceived, not_false_eq_true, if_true]
        exact simulates_throw _ after hkeeps.inBody
    · simp only [hkind, ne_eq, not_false_eq_true, if_true]
      exact simulates_throw _ state hbody

theorem simulates_condition (expression : Expr) :
    Simulates (lift (Check.condition expression)) (Direct.condition expression) := by
  unfold Check.condition Direct.condition
  rw [lift_bind]
  exact (simulates_inferValue expression).bind fun received => simulates_unless _ _

theorem simulates_returned (value : Expr) (location : Location) :
    Simulates (lift (Check.returned value location)) (Direct.returned value location) := by
  unfold Check.returned Direct.returned
  rw [lift_bind]
  refine (simulates_inferValue value).bind fun received => simulates_get_bind fun state hbody => ?_
  have hreturns : state.settled.stack.returns = state.scope.own.returns := rfl
  rw [hreturns]
  cases state.scope.own.returns with
  | none => exact simulates_throw _ state hbody
  | some => exact simulates_unless _ _ state hbody

theorem simulates_idle (expression : Expr) :
    Simulates (lift (Check.idle expression)) (Direct.idle expression) := by
  cases expression with
  | name name =>
    intro state hbody
    have hresolve := resolve_settled hbody name
    simp only [SimulatesAt, lift, Check.idle, Direct.idle, Check.require, bind, EStateM.bind]
    cases hcase : state.scope.resolve name with
    | ok => simp only [hcase] at hresolve ⊢; rw [hresolve]; exact ⟨rfl, .refl hbody⟩
    | error => simp only [hcase] at hresolve ⊢; rw [hresolve]; exact ⟨⟨_, rfl⟩, trivial⟩
  | integer digits location | string text location | call function arguments location =>
    exact simulates_pure ()

/-! ### Bodies -/

/-- The scope of a new body, inside of another one or of a file. -/
theorem inBody_child (hnested : Nested scope.levels) (hinner : scope.own.kind.child = .inner) :
    scope.child.InBody := by
  have hdepth : scope.own.depth = scope.enclosing.length := hnested.1
  refine ⟨⟨?_, ?_, fun hne => absurd hinner hne, hnested⟩, hinner⟩
  · simp [Scope.child, hdepth]
  · intro flag address hmem
    cases flag <;> simp [Scope.child, Effects.noted] at hmem

theorem settled_child (scope : Scope) : scope.child.settled = scope.settled.push := by
  simp [Scope.settled, Scope.levels, Scope.child, settle, Direct.Stack.push, Pending.ontoTable]

/-- Effects whose variables all have a home get lost nowhere. -/
theorem homeless_eq_nil (h : ∀ flag, ∀ address ∈ effects.noted flag, Home scope.levels address) :
    scope.homeless effects = [] := by
  refine filter_eq_nil_iff.mpr fun address hmem => ?_
  have hhome : Home scope.levels address := by
    rcases mem_append.mp hmem with hused | hinitialized
    · exact h .used address hused
    · exact h .initialized address hinitialized
  obtain ⟨level, hlevel, hdepth, -, hsome⟩ := hhome
  simp only [Bool.not_eq_true', Bool.not_eq_false]
  exact any_eq_true.mpr ⟨level, hlevel, by simp [hdepth, hsome]⟩

/-- Rearranged effects are about the same variables. -/
theorem mem_noted_of_rearranges (horder : order.Rearranges) {turn : Nat} {flag : Flag}
    {address : Address} (h : address ∈ (order turn effects).noted flag) :
    address ∈ effects.noted flag := by
  cases flag
  · exact (horder turn effects).1.mem_iff.mp h
  · exact (horder turn effects).2.mem_iff.mp h

/-- Handing on the effects of a finished body takes its tier off the stack and does nothing else,
and none of the effects is lost. -/
theorem settled_apply {child : Scope} (hbody : scope.InBody) (hchild : child.InBody)
    (henclosing : child.enclosing = scope.levels) (horder : order.Rearranges) (turn : Nat) :
    (scope.apply (order turn child.own.outer)).settled = child.settled.tail ∧
      (scope.apply (order turn child.own.outer)).InBody ∧
      scope.homeless (order turn child.own.outer) = [] := by
  obtain ⟨-, hnoted, -, -⟩ := hchild.nested
  have hhome : ∀ flag, ∀ address ∈ (order turn child.own.outer).noted flag,
      Home scope.levels address := fun flag address hmem =>
    henclosing ▸ hnoted flag address (mem_noted_of_rearranges horder hmem)
  refine ⟨?_, ⟨hbody.nested.apply hhome, ?_⟩, homeless_eq_nil hhome⟩
  · calc settle .none (scope.own.apply (order turn child.own.outer) :: scope.enclosing)
        = settle (Pending.none.add child.own.outer) (scope.own :: scope.enclosing) :=
          settle_apply hbody.nested (horder turn _).1 (horder turn _).2 _
      _ = child.settled.tail := by
          rw [Scope.settled, Scope.levels, henclosing]
          rfl
  · exact (Level.apply_kind _ _).trans hbody.inner

/-- The innermost tier of the stack is the innermost level without its effects. -/
theorem finish_settled (scope : Scope) :
      (scope.settled.headD default).warnings = scope.own.warnings ∧
        (scope.settled.headD default).pruned = scope.own.pruned := by
  simp [Scope.settled, Scope.levels, settle, Direct.Tier.warnings, Direct.Tier.pruned,
    Direct.Tier.unused, Level.warnings, Level.pruned, Level.unused]

/-- **A body.** Running it in a scope of its own, finishing it and handing its effects on in some
order does what running it on top of the stack, finishing it and taking it off does. -/
theorem simulates_body (horder : order.Rearranges) {action : Action Unit}
    {direct : Direct.Action Unit} (h : Simulates action direct) :
    Simulates (do
        let level ← inChild action
        let kept ← lift (Check.finish level)
        handOn order level.outer
        return kept)
      (do
        let tier ← Direct.inBody direct
        Direct.finish tier) := by
  intro state hbody
  have hopened := inBody_child hbody.nested (by rw [hbody.inner]; rfl)
  have hchild := h { state with scope := state.scope.child } hopened
  have hstart : State.settled { state with scope := state.scope.child } =
      ⟨state.scope.settled.push, state.warnings⟩ := by
    rw [State.settled, settled_child]
  simp only [SimulatesAt, hstart] at hchild
  -- what the two sides do around the action, as one match on its outcome
  have hordered : (do
        let level ← inChild action
        let kept ← lift (Check.finish level)
        handOn order level.outer
        return kept : Action (List Stmt)) state =
      match action { state with scope := state.scope.child } with
      | .error error after => .error error { after with scope := state.scope }
      | .ok _ after =>
        .ok after.scope.own.pruned
          { scope := state.scope.apply (order after.turn after.scope.own.outer)
            warnings := after.warnings ++ after.scope.own.warnings
            turn := after.turn + 1
            lost := after.lost ++
              state.scope.homeless (order after.turn after.scope.own.outer) } := by
    simp only [bind, EStateM.bind, inChild]
    cases action { state with scope := state.scope.child } <;> rfl
  have hdirect : (do
        let tier ← Direct.inBody direct
        Direct.finish tier) state.settled =
      match direct ⟨state.scope.settled.push, state.warnings⟩ with
      | .error error after => .error error after
      | .ok _ after =>
        .ok (after.stack.headD default).pruned
          ⟨after.stack.tail, after.warnings ++ (after.stack.headD default).warnings⟩ := by
    simp only [bind, EStateM.bind, Direct.inBody, Direct.modifyStack_run, State.settled]
    cases direct ⟨state.scope.settled.push, state.warnings⟩ <;> rfl
  simp only [SimulatesAt, hordered, hdirect]
  cases haction : action { state with scope := state.scope.child } with
  | error =>
    simp only [haction] at hchild ⊢
    obtain ⟨⟨stack, herror⟩, hlost⟩ := hchild
    exact ⟨⟨stack, by rw [herror]⟩, hlost⟩
  | ok value after =>
    simp only [haction] at hchild ⊢
    obtain ⟨hok, hkeeps⟩ := hchild
    -- the updates that were deferred arrive in the enclosing scopes now, in whatever order
    obtain ⟨hsettled, hafter, hhomeless⟩ :=
      settled_apply hbody hkeeps.inBody hkeeps.enclosing horder after.turn
    obtain ⟨hwarnings, hpruned⟩ := finish_settled after.scope
    rw [hok]
    refine ⟨?_, hafter, rfl, ?_⟩
    · simp only [State.settled, hsettled, hwarnings, hpruned]
    · simp only [hhomeless, append_nil]
      exact hkeeps.lost

mutual

theorem simulates_execute {order : Order} (horder : order.Rearranges) :
    ∀ stmt, Simulates (execute order stmt) (Direct.execute stmt)
  | .conditional expression body location => by
    have hbody := simulates_body horder (simulates_executeAll horder body)
    have hrest := (simulates_condition expression).bind fun _ =>
      hbody.bind fun kept => simulates_emit (.conditional expression kept location)
    rw [execute, Direct.execute]
    simpa only [bind_assoc, pure_bind] using hrest
  | .expression expression location => by
    simp only [execute, Check.execute, Direct.execute]
    split
    · rw [lift_bind]
      exact (simulates_infer expression).bind fun _ => simulates_emit _
    · rw [lift_bind]
      exact (simulates_warn _).bind fun _ => simulates_idle expression
  | .declaration type name location => by
    simp only [execute, Check.execute, Direct.execute]
    rw [lift_bind]
    exact (simulates_declareVariable type name location).bind fun _ => simulates_emit _
  | .assignment target value location => by
    simp only [execute, Check.execute, Direct.execute]
    rw [lift_bind]
    exact (simulates_assign target value location).bind fun _ => simulates_emit _
  | .result value location => by
    simp only [execute, Check.execute, Direct.execute]
    rw [lift_bind]
    exact (simulates_returned value location).bind fun _ => simulates_emit _
  | .function .. => by
    simp only [execute, Check.execute, Direct.execute]
    exact simulates_throw _
  | .retain name location | .release name location => by
    simp only [execute, Check.execute, Direct.execute]
    exact simulates_emit _

theorem simulates_executeAll {order : Order} (horder : order.Rearranges) :
    ∀ block, Simulates (executeAll order block) (Direct.executeAll block)
  | [] => by
    rw [executeAll, Direct.executeAll]
    exact simulates_pure ()
  | stmt :: block => by
    rw [executeAll, Direct.executeAll]
    exact (simulates_execute horder stmt).bind fun _ => simulates_executeAll horder block

end

/-! ### Programs -/

theorem simulates_declareParameter (parameter : Parameter) (type : Ty) :
    Simulates (lift (Check.declareParameter parameter type))
      (Direct.declareParameter parameter type) := by
  unfold Check.declareParameter Direct.declareParameter
  rw [lift_bind]
  exact (simulates_ensureFree _ _).bind fun _ => simulates_declare _ _

theorem simulates_declareParameters (parameters : List Parameter) (types : List Ty) :
    Simulates (lift (Check.declareParameters parameters types))
      (Direct.declareParameters parameters types) := by
  induction parameters generalizing types with
  | nil =>
    simp only [Check.declareParameters, Direct.declareParameters]
    exact simulates_pure ()
  | cons parameter parameters ih =>
    cases types with
    | nil =>
    simp only [Check.declareParameters, Direct.declareParameters]
    exact simulates_pure ()
    | cons type types =>
      rw [Check.declareParameters, Direct.declareParameters, lift_bind]
      exact (simulates_declareParameter parameter type).bind fun _ => ih types

theorem simulates_ensureResult (returns : Option Ty) (function : FunctionDef) :
    Simulates (lift (Check.ensureResult returns function))
      (Direct.ensureResult returns function) := by
  cases returns with
  | none => exact simulates_pure ()
  | some => exact simulates_unless _ _

theorem simulates_functionBody (horder : order.Rearranges) (signature : Signature)
    (function : FunctionDef) :
    Simulates (functionBody order signature function) (Direct.functionBody signature function) := by
  unfold functionBody Direct.functionBody
  refine (simulates_modifyScope fun scope hbody =>
    ⟨rfl, inBody_modifyOwn hbody rfl rfl rfl, rfl⟩).bind fun _ => ?_
  refine (simulates_declareParameters _ _).bind fun _ => ?_
  refine (simulates_executeAll horder function.body).bind fun _ => ?_
  refine (simulates_ensureResult _ _).bind fun _ state hbody => ?_
  obtain ⟨hwarnings, hpruned⟩ := finish_settled state.scope
  refine ⟨?_, hbody, rfl, rfl⟩
  change EStateM.Result.ok (state.scope.settled.headD default).pruned
      (Direct.State.mk state.scope.settled
        (state.warnings ++ (state.scope.settled.headD default).warnings)) = _
  rw [hwarnings, hpruned]
  rfl

/-- The names of a file are all in use, and no effects are pending. -/
theorem nested_file (functions : List FunctionDef) : Nested (Scope.file functions).levels := by
  have hnone : ∀ outer : List Level, ∀ flag, ∀ address ∈ Effects.noted {} flag,
      Home outer address := by
    intro outer flag address hmem
    cases flag <;> cases hmem
  refine ⟨rfl, hnone _, fun _ entry hentry => ?_, rfl, hnone _, fun _ entry hentry => ?_, trivial⟩
  · obtain ⟨function, -, rfl⟩ := mem_map.mp hentry
    rfl
  · rw [Scope.builtin_own_table] at hentry
    simp only [mem_cons, not_mem_nil, or_false] at hentry
    rcases hentry with rfl | rfl | rfl | rfl | rfl | rfl | rfl <;> rfl

theorem settled_file (functions : List FunctionDef) :
    (Scope.file functions).settled = Direct.Stack.ofScope (Scope.file functions) := by
  simp [Scope.settled, Direct.Stack.ofScope, Scope.levels, Scope.file, settle]

theorem checkFunction_eq_direct (horder : order.Rearranges) (functions : List FunctionDef)
    (function : FunctionDef) :
    checkFunction order (Scope.file functions) function =
      ⟨Direct.checkFunction (Direct.Stack.ofScope (Scope.file functions)) function, []⟩ := by
  have hsignature : ((Direct.Stack.ofScope (Scope.file functions)).find function.name).bind
      (fun found => found.1.entity.signature?) =
      (Scope.file functions).signature? function.name := by
    rw [Direct.Stack.find_ofScope, Scope.signature?]
    cases (Scope.file functions).lookup function.name <;> rfl
  unfold checkFunction Direct.checkFunction
  rw [hsignature]
  cases (Scope.file functions).signature? function.name with
  | none => rfl
  | some signature =>
    have hbody := simulates_functionBody horder signature function
      { scope := (Scope.file functions).child } (inBody_child (nested_file functions) rfl)
    simp only [SimulatesAt, State.settled, settled_child, settled_file] at hbody ⊢
    cases hcase : functionBody order signature function
      { scope := (Scope.file functions).child } with
    | ok =>
      simp only [hcase] at hbody ⊢
      rw [hbody.1, hbody.2.lost]
    | error =>
      simp only [hcase] at hbody ⊢
      obtain ⟨⟨stack, hdirect⟩, hlost⟩ := hbody
      rw [hdirect, hlost]

theorem checkFunctions_eq_direct (horders : ∀ n, (orders n).Rearranges)
    (all functions : List FunctionDef) :
    checkFunctions orders (Scope.file all) functions =
      ⟨Direct.checkFunctions (Direct.Stack.ofScope (Scope.file all)) functions, []⟩ := by
  induction functions with
  | nil => rfl
  | cons function functions ih =>
    rw [checkFunctions, checkFunction_eq_direct (horders _), ih, Direct.checkFunctions]
    rcases Direct.checkFunction (Direct.Stack.ofScope (Scope.file all)) function with
      ⟨_ | checked, warnings⟩
    · rfl
    · rfl

/-- Checking with any order does what direct checking does, and no effect is lost. -/
theorem check_eq_direct (horders : ∀ n, (orders n).Rearranges) (program : Program) :
    check orders program = ⟨Direct.check program, []⟩ := by
  unfold check Direct.check
  cases program.functions with
  | error => rfl
  | ok functions =>
    simp only
    cases hfile : Program.fileScope functions with
    | error => rfl
    | ok =>
      obtain ⟨rfl, -, -⟩ := Scope.ofFunctions_eq_ok (Program.fileScope_eq_ok hfile).2
      simp only [checkFunctions_eq_direct horders]

/-- Checking does what direct checking does. -/
theorem check_eq_direct_check (program : Program) : program.check = Direct.check program := by
  rw [← check_asNoted, check_eq_direct fun _ => Order.asNoted_rearranges]

/-- **Deferred effects refine direct changes.** For every list of statements and every order in
which effects are handed on, checking with deferred effects gives the result and the warnings of
checking on one stack, and no effect is dropped for want of its variable. In particular this holds
of checking as it is defined. -/
theorem deferred_refines_direct (program : Program) (orders : Nat → Order)
    (horders : ∀ n, (orders n).Rearranges) :
    (check orders program).report = Direct.check program ∧ (check orders program).lost = [] ∧
      program.check = Direct.check program := by
  rw [check_eq_direct horders]
  exact ⟨rfl, rfl, check_eq_direct_check program⟩

/-- The order opposite to the one in which effects were noted. -/
def reversed : Order := fun _ effects => ⟨effects.used.reverse, effects.initialized.reverse⟩

theorem reversed_rearranges : Order.Rearranges reversed :=
  fun _ _ => ⟨reverse_perm _, reverse_perm _⟩

/-- A program with two variables that get their values in a condition inside of another one, where
one of them is hidden by a variable that nothing reads. -/
def nestedConditions : Program :=
  let name (text : String) : Name := ⟨text, default⟩
  [.function "main" [] none
    [.declaration (name "String") "a" (.restOfLine 1 0),
      .declaration (name "String") "b" (.restOfLine 2 0), .conditional (.name (name "TRUE"))
        [.conditional (.name (name "FALSE"))
          [.assignment (name "a") (.string "x" default) default,
            .assignment (name "b") (.name (name "a")) default,
            .declaration (name "Int") "a" (.restOfLine 3 0)] default] default,
      .expression (.call (.name (name "print")) [.name (name "b")] default) default]
    default]

theorem deferred_refines_direct_nestedConditions :
    (∀ _ : Nat, Order.Rearranges reversed) ∧ nestedConditions.check.result.isOk = true ∧
      nestedConditions.check.warnings = [⟨.unusedVariable "a", .restOfLine 3 0⟩] ∧
      (check (fun _ => reversed) nestedConditions).report = Direct.check nestedConditions ∧
      (check (fun _ => reversed) nestedConditions).lost = [] ∧
      nestedConditions.check = Direct.check nestedConditions :=
  ⟨fun _ => reversed_rearranges, by decide +kernel, by decide +kernel,
    deferred_refines_direct nestedConditions (fun _ => reversed) fun _ => reversed_rearranges⟩

end Ordered

end FrontEnd
