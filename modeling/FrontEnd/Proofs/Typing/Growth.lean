import FrontEnd.Proofs.Typing.Rules

/-!
# What checking does to the stack

Checking a statement adds a variable to the innermost body at most, and gives marks to variables:
they get used, or they get a value. Nothing else happens to the bodies that were open before
(`extends_executeAll`). In particular the names in them stand for what they stood for, and what is
used stays used.
-/

namespace FrontEnd.Direct

open List Stack

variable {first second third : Tier}

/-- A body in which variables have got marks, and nothing else has changed. -/
structure Tier.Alike (tier other : Tier) : Prop where
  kind : other.kind = tier.kind
  returns : other.returns = tier.returns
  output : other.output = tier.output
  names : other.table.map Prod.fst = tier.table.map Prod.fst
  entity : ∀ name, (other.table.lookup name).map (·.entity) =
  (tier.table.lookup name).map (·.entity)
  /-- What is used stays used. -/
  used : ∀ name, (tier.table.lookup name).any (·.used) → (other.table.lookup name).any (·.used)

theorem Tier.Alike.refl (tier : Tier) : tier.Alike tier :=
  ⟨rfl, rfl, rfl, rfl, fun _ => rfl, fun _ => id⟩

theorem Tier.Alike.trans (h : first.Alike second) (h' : second.Alike third) : first.Alike third :=
  ⟨h'.kind.trans h.kind, h'.returns.trans h.returns, h'.output.trans h.output,
    h'.names.trans h.names, fun name => (h'.entity name).trans (h.entity name),
    fun name => h'.used name ∘ h.used name⟩

/-- A change that leaves what a variable stands for and does not take its marks away. -/
structure Marks (change : Variable → Variable) : Prop where
  entity : ∀ old, (change old).entity = old.entity
  used : ∀ old, old.used = true → (change old).used = true

/-- A body that may have got more variables, with names that it did not have. -/
structure Tier.Grows (tier other : Tier) : Prop where
  kind : other.kind = tier.kind
  returns : other.returns = tier.returns
  nodup : (tier.table.map Prod.fst).Nodup → (other.table.map Prod.fst).Nodup
  used : ∀ name, (tier.table.lookup name).any (·.used) → (other.table.lookup name).any (·.used)

theorem Tier.Grows.trans (h : first.Grows second) (h' : second.Grows third) : first.Grows third :=
  ⟨h'.kind.trans h.kind, h'.returns.trans h.returns, h'.nodup ∘ h.nodup, fun name =>
    h'.used name ∘ h.used name⟩

theorem Tier.Alike.grows {tier other : Tier} (h : tier.Alike other) : tier.Grows other :=
  ⟨h.kind, h.returns, fun hnodup => h.names ▸ hnodup, h.used⟩

/-- Two stacks are alike if their bodies are. -/
abbrev Stack.Alike (stack other : Stack) : Prop := Forall₂ Tier.Alike stack other

namespace Stack

variable {first second third stack other : Stack} {name : String}

theorem Alike.refl (stack : Stack) : stack.Alike stack := forall₂_same.mpr fun tier _ => .refl tier

theorem Alike.trans (h : first.Alike second) (h' : second.Alike third) : first.Alike third := by
  induction h generalizing third with
  | nil => exact h'
  | cons htier _ ih =>
    cases h' with
    | cons htier' houter' => exact .cons (htier.trans htier') (ih houter')

theorem alike_update (stack : Stack) (name : String) {change : Variable → Variable}
    (hchange : Marks change) : stack.Alike (stack.update name change) := by
  induction stack with
  | nil => exact .nil
  | cons tier outer ih =>
    simp only [update]
    cases hlookup : tier.table.lookup name with
    | none => exact .cons (.refl tier) ih
    | some =>
      refine .cons ⟨rfl, rfl, rfl, ?_, fun other => ?_, fun other hother => ?_⟩ (Alike.refl outer)
      · simp only [Table.adjust, map_map]
        refine map_congr_left fun entry _ => ?_
        simp only [Function.comp_apply]
        split <;> rfl
      · simp only [Table.lookup_adjust]
        split
        · rw [Option.map_map]
          exact congrArg (Option.map · _) (funext hchange.entity)
        · rfl
      · simp only [Table.lookup_adjust]
        split
        · cases hcase : tier.table.lookup other with
          | none => rw [hcase] at hother; cases hother
          | some old => rw [hcase] at hother; exact hchange.used old hother
        · exact hother

theorem alike_read (stack : Stack) (names : List String) : stack.Alike (stack.read names) := by
  induction names generalizing stack with
  | nil => exact Alike.refl stack
  | cons name names ih =>
    rw [read_cons]
    refine Alike.trans (alike_update stack name ?_) (ih _)
    exact ⟨fun _ => rfl, fun _ _ => rfl⟩

theorem lookup_eq_none_of_clash {tier : Tier} {outer : Stack}
    (h : clash (tier :: outer) name = none) :
    tier.table.lookup name = none := by
  rw [clash] at h
  split at h
  · cases h
  · next hnone => exact hnone

theorem push_ne_nil (stack : Stack) : stack.push ≠ [] := by
  cases stack <;> simp [push]

theorem tail_push (h : stack ≠ []) : stack.push.tail = stack := by
  cases stack with
  | nil => exact absurd rfl h
  | cons => rfl

/-- A stack that has grown in its innermost body at most. -/
def Extends : Stack → Stack → Prop
  | tier :: outer, tier' :: outer' => tier.Grows tier' ∧ Alike outer outer'
  | _, _ => False

theorem Extends.trans (h : first.Extends second) (h' : second.Extends third) :
    first.Extends third := by
  match first, second, third, h, h' with
  | _ :: _, _ :: _, _ :: _, ⟨htier, houter⟩, ⟨htier', houter'⟩ =>
    exact ⟨htier.trans htier', Alike.trans houter houter'⟩

theorem Alike.extends (h : stack.Alike other) (hne : stack ≠ []) : stack.Extends other := by
  cases h with
  | nil => exact absurd rfl hne
  | cons htier houter => exact ⟨htier.grows, houter⟩

theorem alike_tail_of_extends (h : stack.Extends other) : Stack.Alike stack.tail other.tail := by
  match stack, other, h with
  | _ :: _, _ :: _, ⟨_, houter⟩ => exact houter

theorem Extends.ne_nil (h : stack.Extends other) : other ≠ [] := by
  rintro rfl
  cases stack <;> exact h

theorem extends_declared (h : stack ≠ []) (hfree : stack.clash name = none) (new : Variable) :
    stack.Extends (stack.declared name new) := by
  cases stack with
  | nil => exact absurd rfl h
  | cons tier outer =>
    have hnone := lookup_eq_none_of_clash hfree
    refine ⟨⟨rfl, rfl, fun hnodup => ?_, fun other hother => ?_⟩, Alike.refl outer⟩
    · change ((tier.table.insert name new).map Prod.fst).Nodup
      rw [Table.insert_of_lookup_eq_none hnone, map_append]
      refine nodup_append.mpr ⟨hnodup, by simp, ?_⟩
      rintro other hother _ hname rfl
      simp only [map_cons, map_nil, mem_singleton] at hname
      subst hname
      obtain ⟨entry, hentry, rfl⟩ := mem_map.mp hother
      have hne := lookup_eq_none_iff.mp hnone entry hentry
      simp at hne
    · change ((tier.table.insert name new).lookup other).any (·.used) = true
      rw [Table.lookup_insert]
      split
      · next heq =>
        subst heq
        rw [hnone] at hother
        cases hother
      · exact hother

theorem extends_emitted (h : stack ≠ []) (stmt : Stmt) : stack.Extends (stack.emitted stmt) := by
  cases stack with
  | nil => exact absurd rfl h
  | cons tier outer => exact ⟨⟨rfl, rfl, id, fun _ => id⟩, Alike.refl outer⟩

/-- A statement is kept after some marks were given. -/
theorem Alike.extends_emitted (h : stack.Alike other) (hne : stack ≠ []) (stmt : Stmt) :
    stack.Extends (other.emitted stmt) :=
  (h.extends hne).trans (Stack.extends_emitted (h.extends hne).ne_nil stmt)

end Stack

mutual

/-- A statement that was checked leaves the bodies around it alone, but for marks at their
variables. -/
theorem extends_execute : ∀ (stmt : Stmt) {state final : State},
    execute stmt state = .ok () final → state.stack ≠ [] → state.stack.Extends final.stack
  | .expression expression location, state, final, h, hne => by
    obtain ⟨-, ⟨-, rfl⟩ | ⟨-, rfl⟩⟩ := execute_eq_ok_iff.mp h
    · exact (alike_read _ _).extends_emitted hne _
    · exact (Stack.Alike.refl _).extends hne
  | .declaration type name location, state, final, h, hne => by
    obtain ⟨hfree, found, -, rfl⟩ := execute_eq_ok_iff.mp h
    have hdeclared := extends_declared hne hfree ⟨.value found, some location, false, false⟩
    exact hdeclared.trans (extends_emitted hdeclared.ne_nil _)
  | .assignment target value location, state, final, h, hne => by
    obtain ⟨found, -, -, rfl⟩ := execute_eq_ok_iff.mp h
    refine Stack.Alike.extends_emitted ((alike_read _ value.names).trans ?_) hne _
    exact alike_update _ target.text ⟨fun _ => rfl, fun _ => id⟩
  | .conditional expression body location, state, final, h, hne => by
    obtain ⟨-, inner, hbody, rfl⟩ := execute_eq_ok_iff.mp h
    have halike := alike_read state.stack expression.names
    have hread : state.stack.read expression.names ≠ [] := (halike.extends hne).ne_nil
    -- the body grows its own tier only, and that is gone after the block
    have hinner := extends_executeAll body hbody (push_ne_nil _)
    refine Stack.Alike.extends_emitted (halike.trans ?_) hne _
    simpa only [tail_push hread] using alike_tail_of_extends hinner
  | .result value location, state, final, h, hne => by
    obtain ⟨expected, -, -, rfl⟩ := execute_eq_ok_iff.mp h
    exact (alike_read _ _).extends_emitted hne _
  | .function .., state, final, h, hne => (execute_eq_ok_iff.mp h).elim
  | .retain name location, state, final, h, hne | .release name location, state, final, h, hne => by
    cases execute_eq_ok_iff.mp h
    exact extends_emitted hne _

theorem extends_executeAll : ∀ (block : List Stmt) {state final : State},
    executeAll block state = .ok () final → state.stack ≠ [] → state.stack.Extends final.stack
  | [], state, final, h, hne => by
    rw [executeAll] at h
    cases h
    exact (Stack.Alike.refl _).extends hne
  | stmt :: block, state, final, h, hne => by
    obtain ⟨middle, hfirst, hrest⟩ := executeAll_cons_eq_ok_iff.mp h
    have hstmt := extends_execute stmt hfirst hne
    exact hstmt.trans (extends_executeAll block hrest hstmt.ne_nil)

end

end FrontEnd.Direct
