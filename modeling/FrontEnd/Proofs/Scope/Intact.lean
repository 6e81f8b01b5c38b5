import FrontEnd.Typing.Check
import Mathlib.Logic.Relation

/-!
# A failing statement leaves the scope intact

A statement is looked at before anything is done about it. What is noted on the way is that names
are read, and this is all that is left in the scope if the statement turns out to be wrong
(`Scope.ReadMore`): nothing is declared, nothing gets a value, nothing is kept. This is so for a
condition too, the body of which may have declared and kept a lot before it fails, since all that
was done to a scope of its own.

Actions are taken apart into those that only note reads, whatever comes of them (`Quiet`), and those
that cannot fail (`Sure`). Where all of the former come before the latter, changes are committed at
the end (`Intact`).

The levels around the innermost one are never changed, by no operation on a scope
(`Scope.Step.enclosing_eq`) and by no run of them (`Scope.Run.enclosing_eq`).
-/

namespace FrontEnd

open Checking Infer

/-! ### Scopes in which more is read -/

/-- A variable without the note that it is read. -/
def Variable.unread (v : Variable) : Variable :=
  { v with used := false }

/-- The variables of a table, in their order, without the notes which of them are read. -/
def Table.unread (table : Table) : Table :=
  table.map fun (name, v) => (name, v.unread)

/-- A level in which more variables are read, and that is otherwise the same. -/
structure Level.ReadMore (before after : Level) : Prop where
  kind : after.kind = before.kind
  depth : after.depth = before.depth
  returns : after.returns = before.returns
  output : after.output = before.output
  /-- The names that are declared, what they stand for, where they were defined and which of them
  have a value. -/
  table : after.table.unread = before.table.unread
  initialized : after.outer.initialized = before.outer.initialized
  /-- What is read stays read. -/
  used : ∀ name, (before.table.lookup name).any (·.used) → (after.table.lookup name).any (·.used)
  outerUsed : before.outer.used ⊆ after.outer.used

/-- A scope in which more variables are read, and that is otherwise the same. -/
structure Scope.ReadMore (before after : Scope) : Prop where
  own : before.own.ReadMore after.own
  enclosing : after.enclosing = before.enclosing

theorem Level.ReadMore.refl (level : Level) : level.ReadMore level :=
  ⟨rfl, rfl, rfl, rfl, rfl, rfl, fun _ => id, fun _ => id⟩

theorem Level.ReadMore.trans {first second third : Level} (h : first.ReadMore second)
    (h' : second.ReadMore third) :
    first.ReadMore third :=
  ⟨h'.kind.trans h.kind, h'.depth.trans h.depth, h'.returns.trans h.returns,
    h'.output.trans h.output,
    h'.table.trans h.table, h'.initialized.trans h.initialized, fun name =>
    h'.used name ∘ h.used name,
    fun _ hmem => h'.outerUsed (h.outerUsed hmem)⟩

theorem Scope.ReadMore.refl (scope : Scope) : scope.ReadMore scope :=
  ⟨.refl scope.own, rfl⟩

theorem Scope.ReadMore.trans {first second third : Scope} (h : first.ReadMore second)
    (h' : second.ReadMore third) :
    first.ReadMore third :=
  ⟨h.own.trans h'.own, h'.enclosing.trans h.enclosing⟩

/-- Noting that a variable is read adds just this note. -/
theorem Level.readMore_markUsed (level : Level) (name : String) (kind : ScopeKind) (depth : Nat) :
    level.ReadMore (level.markUsed name kind depth) := by
  unfold markUsed
  split
  · exact .refl level
  · split
    · refine ⟨rfl, rfl, rfl, rfl, ?_, rfl, fun other hother => ?_, fun _ => id⟩
      · simp only [Table.unread, Table.adjust, List.map_map]
        refine List.map_congr_left fun entry _ => ?_
        simp only [Function.comp_apply]
        split <;> rfl
      · rw [Table.lookup_adjust]
        split
        · cases hlookup : level.table.lookup other with
          | none => rw [hlookup] at hother; cases hother
          | some => rfl
        · exact hother
    · exact ⟨rfl, rfl, rfl, rfl, rfl, rfl, fun _ => id, fun _ hmem => List.mem_insert_of_mem hmem⟩

/-! ### Actions that only note reads -/

section Actions

variable {ε σ α β : Type}

/-- The state in which an action ends, whether it succeeds or not. -/
def stateAfter : EStateM.Result ε σ α → σ
  | .ok _ state => state
  | .error _ state => state

/-- An action that only notes reads in a part of its state, whatever comes of it. -/
def Quiet (part : σ → Scope) (action : EStateM ε σ α) : Prop :=
  ∀ state, (part state).ReadMore (part (stateAfter (action state)))

variable {part : σ → Scope} {action : EStateM ε σ α} {next : α → EStateM ε σ β}

theorem Quiet.bind (h : Quiet part action) (hnext : ∀ value, Quiet part (next value)) :
    Quiet part (action >>= next) := by
  intro state
  have hfirst := h state
  simp only [Bind.bind, EStateM.bind]
  cases haction : action state with
  | ok value after =>
    rw [haction] at hfirst
    exact hfirst.trans (hnext value after)
  | error =>
    rw [haction] at hfirst
    exact hfirst

theorem quiet_pure (value : α) : Quiet part (pure value : EStateM ε σ α) :=
  fun state => .refl (part state)

theorem quiet_throw (error : ε) : Quiet part (throw error : EStateM ε σ α) :=
  fun state => .refl (part state)

theorem quiet_get : Quiet part (get : EStateM ε σ σ) :=
  fun state => .refl (part state)

/-- A test, and an error if it fails. -/
theorem quiet_unless (test : Prop) [Decidable test] (error : ε) :
    Quiet part (if test then pure () else throw error : EStateM ε σ Unit) := by
  split
  · exact quiet_pure ()
  · exact quiet_throw error

/-! ### Actions that commit their changes at the end -/

/-- An action that cannot fail and changes the innermost level at most. -/
def Sure (part : σ → Scope) (action : EStateM ε σ α) : Prop :=
  ∀ state, ∃ value after, action state = .ok value after ∧
    (part after).enclosing = (part state).enclosing

/-- An action that changes the innermost level at most, and only notes reads if it fails. -/
def Intact (part : σ → Scope) (action : EStateM ε σ α) : Prop :=
  ∀ state,
    match action state with
    | .ok _ after => (part after).enclosing = (part state).enclosing
    | .error _ after => (part state).ReadMore (part after)

theorem Sure.bind (h : Sure part action) (hnext : ∀ value, Sure part (next value)) :
    Sure part (action >>= next) := by
  intro state
  obtain ⟨value, middle, haction, hmiddle⟩ := h state
  obtain ⟨last, after, hlast, hafter⟩ := hnext value middle
  refine ⟨last, after, ?_, hafter.trans hmiddle⟩
  simp only [Bind.bind, EStateM.bind, haction, hlast]

theorem Sure.intact (h : Sure part action) : Intact part action := by
  intro state
  obtain ⟨value, after, haction, hafter⟩ := h state
  rw [haction]
  exact hafter

theorem Quiet.intact (h : Quiet part action) : Intact part action := by
  intro state
  have hstate := h state
  cases haction : action state with
  | ok =>
    rw [haction] at hstate
    exact hstate.enclosing
  | error =>
    rw [haction] at hstate
    exact hstate

/-- Reads come first. -/
theorem Quiet.andThen (h : Quiet part action) (hnext : ∀ value, Intact part (next value)) :
    Intact part (action >>= next) := by
  intro state
  have hfirst := h state
  simp only [Bind.bind, EStateM.bind]
  cases haction : action state with
  | error =>
    rw [haction] at hfirst
    exact hfirst
  | ok value middle =>
    rw [haction] at hfirst
    have hrest := hnext value middle
    revert hrest
    dsimp only
    cases next value middle with
    | ok => exact fun hrest => hrest.trans hfirst.enclosing
    | error => exact hfirst.trans

/-- What cannot fail comes last. -/
theorem Intact.andThen (h : Intact part action) (hnext : ∀ value, Sure part (next value)) :
    Intact part (action >>= next) := by
  intro state
  have hfirst := h state
  simp only [Bind.bind, EStateM.bind]
  cases haction : action state with
  | error =>
    rw [haction] at hfirst
    exact hfirst
  | ok value middle =>
    rw [haction] at hfirst
    obtain ⟨last, after, hlast, hafter⟩ := hnext value middle
    dsimp only
    rw [hlast]
    exact hafter.trans hfirst

end Actions

namespace Infer

theorem quiet_readName (name : Name) : Quiet id (readName name) := by
  intro scope
  unfold readName
  split
  · exact .refl scope
  · exact ⟨scope.own.readMore_markUsed _ _ _, rfl⟩

theorem quiet_needValue (location : Location) (entity : Option Entity) :
    Quiet id (needValue location entity) := by
  cases entity with
  | some entity => exact quiet_pure entity
  | none => exact quiet_throw _

theorem quiet_applySignature (signature : Signature) (arguments : List Entity)
    (location : Location) :
    Quiet id (applySignature signature arguments location) := by
  unfold applySignature
  split
  · exact quiet_pure _
  · exact quiet_throw _

mutual

/-- Looking at an expression notes what it reads, up to the first error in it. -/
theorem quiet_infer : ∀ expression, Quiet id (infer expression)
  | .name name => by
    rw [infer, map_eq_pure_bind]
    exact (quiet_readName name).bind fun _ => quiet_pure _
  | .integer .. | .string .. => by
    rw [infer]
    exact quiet_pure _
  | .call function arguments location => by
    rw [infer]
    refine (quiet_infer function).bind fun entity =>
      (quiet_needValue _ entity).bind fun callee => ?_
    split
    · exact quiet_throw _
    · exact (quiet_inferArguments arguments).bind fun entities =>
        quiet_applySignature _ entities location

theorem quiet_inferArguments : ∀ arguments, Quiet id (inferArguments arguments)
  | [] => by
    rw [inferArguments]
    exact quiet_pure _
  | argument :: arguments => by
    rw [inferArguments]
    refine (quiet_infer argument).bind fun entity => (quiet_needValue _ entity).bind fun value => ?_
    exact (quiet_inferArguments arguments).bind fun values => quiet_pure _

end

theorem quiet_inferValue (expression : Expr) : Quiet id (inferValue expression) :=
  (quiet_infer expression).bind fun entity => quiet_needValue _ entity

end Infer

namespace Check

variable {α β : Type}

theorem quiet_infer {action : Infer α} (h : Quiet id action) : Quiet scope (infer action) := by
  intro state
  have hscope := h state.scope
  unfold infer
  cases haction : action state.scope with
  | ok value scope | error error scope =>
    rw [haction] at hscope
    exact hscope

theorem quiet_require (test : Scope → Except Error α) : Quiet scope (require test) := by
  intro state
  unfold require
  split <;> exact .refl state.scope

theorem quiet_warn (warnings : List Warning) : Quiet scope (warn warnings) :=
  fun state => .refl state.scope

theorem quiet_finish (level : Level) : Quiet scope (finish level) :=
  (quiet_warn _).bind fun _ => quiet_pure _

/-- A body has a scope of its own. -/
theorem quiet_inChild (action : Check Unit) : Quiet scope (inChild action) := by
  intro state
  unfold inChild
  split <;> exact .refl state.scope

theorem quiet_undeclared (target : Name) (value : Expr) (location : Location) :
    Quiet scope (undeclared target value location) := by
  intro state
  have hscope := quiet_inferValue value state.scope
  unfold undeclared
  split <;>
  · next hvalue =>
    rw [hvalue] at hscope
    exact hscope

theorem quiet_condition (expression : Expr) : Quiet scope (condition expression) :=
  (quiet_infer (quiet_inferValue expression)).bind fun _ => quiet_unless _ _

theorem quiet_returned (value : Expr) (location : Location) :
    Quiet scope (returned value location) := by
  refine (quiet_infer (quiet_inferValue value)).bind fun received => quiet_get.bind fun state => ?_
  split
  · exact quiet_throw _
  · exact quiet_unless _ _

theorem quiet_idle (expression : Expr) : Quiet scope (idle expression) := by
  cases expression with
  | name => exact (quiet_require _).bind fun _ => quiet_pure ()
  | integer | string | call => exact quiet_pure ()

/-! ### Statements -/

theorem sure_modifyOwn (change : Level → Level) : Sure scope (modifyScope (·.modifyOwn change)) :=
  fun state => ⟨(), { state with scope := state.scope.modifyOwn change }, rfl, rfl⟩

theorem sure_emit (stmt : Stmt) : Sure scope (emit stmt) :=
  sure_modifyOwn _

theorem intact_declareVariable (type : Name) (name : String) (location : Location) :
    Intact scope (declareVariable type name location) :=
  (quiet_require _).andThen fun _ => (quiet_require _).andThen fun _ => (sure_modifyOwn _).intact

theorem intact_assign (target : Name) (value : Expr) (location : Location) :
    Intact scope (assign target value location) := by
  refine quiet_get.andThen fun state => ?_
  split
  · exact (quiet_undeclared target value location).intact
  · next binding _ =>
    have hrest : Intact scope (do
        let received ← infer (inferValue value)
        if received ≠ binding.found.entity then
          throw ((Cause.assignmentTypeMismatch target.text
            (Text.withArticle binding.found.entity.noun)
            (Text.withArticle received.noun)).located location)
        modifyScope (·.markInitialized target.text binding.depth)) := by
      refine (quiet_infer (quiet_inferValue value)).andThen fun received => ?_
      split
      · exact (quiet_throw _).andThen fun _ => (sure_modifyOwn _).intact
      · exact (sure_modifyOwn _).intact
    split
    · exact (quiet_throw _).andThen fun _ => hrest
    · exact hrest

/-- **A statement commits its changes at the end.** -/
theorem intact_execute (stmt : Stmt) : Intact scope (execute stmt) := by
  cases stmt with
  | declaration type name location =>
    rw [execute]
    exact (intact_declareVariable type name location).andThen fun _ => sure_emit _
  | assignment target value location =>
    rw [execute]
    exact (intact_assign target value location).andThen fun _ => sure_emit _
  | conditional expression =>
    rw [execute]
    refine (quiet_condition expression).andThen fun _ => (quiet_inChild _).andThen fun level => ?_
    refine (quiet_finish level).andThen fun kept => ?_
    exact ((sure_modifyOwn _).bind fun _ => sure_emit _).intact
  | result value location =>
    rw [execute]
    exact (quiet_returned value location).andThen fun _ => (sure_emit _).intact
  | function =>
    rw [execute]
    exact (quiet_throw _).intact
  | expression expression =>
    rw [execute]
    split
    · exact (quiet_infer (Infer.quiet_infer expression)).andThen fun _ => (sure_emit _).intact
    · exact ((quiet_warn _).bind fun _ => quiet_idle expression).intact
  | retain | release =>
    rw [execute]
    exact (sure_emit _).intact

end Check

/-! ### Operations -/

namespace Scope

/-- One thing that is done to a scope. Looking at an expression and checking a statement may fail,
and leave a scope all the same. -/
inductive Step : Scope → Scope → Prop
  | declare (scope : Scope) (name : String) (new : Variable) : Step scope (scope.declare name new)
  | markUsed (scope : Scope) (name : String) (kind : ScopeKind) (depth : Nat) :
      Step scope (scope.markUsed name kind depth)
  | markInitialized (scope : Scope) (name : String) (depth : Nat) :
      Step scope (scope.markInitialized name depth)
  | apply (scope : Scope) (effects : Effects) : Step scope (scope.apply effects)
  | infer (scope : Scope) (expression : Expr) : Step scope (stateAfter (infer expression scope))
  | inferValue (scope : Scope) (expression : Expr) :
      Step scope (stateAfter (inferValue expression scope))
  | execute (state : Checking) (stmt : Stmt) :
      Step state.scope (stateAfter (Check.execute stmt state)).scope

/-- A number of things that are done to a scope, one after the other. -/
abbrev Run : Scope → Scope → Prop :=
  Relation.ReflTransGen Step

variable {before after : Scope}

/-- Only the innermost level is ever changed. -/
theorem Step.enclosing_eq (h : Step before after) : after.enclosing = before.enclosing := by
  cases h with
  | declare | markUsed | markInitialized | apply => rfl
  | infer _ expression => exact (quiet_infer expression before).enclosing
  | inferValue _ expression => exact (quiet_inferValue expression before).enclosing
  | execute state stmt =>
    have hintact := Check.intact_execute stmt state
    cases hrun : Check.execute stmt state with
    | ok =>
      rw [hrun] at hintact
      exact hintact
    | error =>
      rw [hrun] at hintact
      exact hintact.enclosing

theorem Run.enclosing_eq (h : Run before after) : after.enclosing = before.enclosing := by
  induction h with
  | refl => rfl
  | tail _ hstep ih => exact hstep.enclosing_eq.trans ih

end Scope

/-- **A failing statement leaves the scope intact.** If a statement fails, then it has noted that
variables are read, and done nothing else to the scope. Looking at an expression does nothing else
either, whether it fails or not. Whatever is done to a scope, the levels around it stay as they are;
so nothing that is done in a child changes the scope that it is a child of. -/
theorem execute_keepsScope :
    (∀ (stmt : Stmt) (state after : Checking) (error : Error),
      Check.execute stmt state = .error error after → state.scope.ReadMore after.scope) ∧
    (∀ (expression : Expr) (scope : Scope), scope.ReadMore (stateAfter (infer expression scope)) ∧
      scope.ReadMore (stateAfter (inferValue expression scope))) ∧
    (∀ scope after : Scope, scope.Run after → after.enclosing = scope.enclosing) ∧
    ∀ scope after : Scope, scope.child.Run after → after.enclosing = scope.levels := by
  refine ⟨fun stmt state after error hrun => ?_, fun expression scope => ?_,
    fun _ _ => Scope.Run.enclosing_eq, fun _ _ => Scope.Run.enclosing_eq⟩
  · have hintact := Check.intact_execute stmt state
    rw [hrun] at hintact
    exact hintact
  · exact ⟨quiet_infer expression scope, quiet_inferValue expression scope⟩

/-- A body with a truth value that nothing has read so far, and a text without a value. -/
def askedBody : Checking where
  scope :=
    { own :=
        { kind := .inner
          depth := 1
          table :=
            [("asked", ⟨.value .bool, none, true, false⟩),
              ("line", ⟨.value .string, none, false, false⟩)] }
      enclosing := [Scope.builtin.own] }

/-- A condition with a body that declares a variable and gives values to two, and then fails. -/
def failingCondition : Stmt :=
  let name (text : String) : Name := ⟨text, default⟩
  .conditional (.name (name "asked"))
    [.declaration (name "String") "copy" default,
      .assignment (name "line") (.string "x" default) default,
      .assignment (name "copy") (.name (name "line")) default,
      .expression (.call (.name (name "show")) [.name (name "copy")] default) default]
    default

theorem execute_keepsScope_failingCondition :
    ∃ error after, Check.execute failingCondition askedBody = .error error after ∧
      error.cause = .variableNotDeclared "show" ∧ askedBody.scope.ReadMore after.scope ∧
      after.scope.own.table =
        [("asked", ⟨.value .bool, none, true, true⟩),
          ("line", ⟨.value .string, none, false, false⟩)] := by
  refine ⟨_, _, rfl, rfl, execute_keepsScope.1 failingCondition askedBody _ _ rfl, rfl⟩

end FrontEnd
