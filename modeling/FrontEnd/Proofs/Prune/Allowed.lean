import FrontEnd.Proofs.Prune.Removal
import FrontEnd.Proofs.Typing.Allowed

/-!
# Rules for what is left of a block

What is left of a block without its spare variables is allowed wherever the block is allowed
(`allowedAll_removeSpare`).

The argument goes along the one about runs: the rules hold in two environments of which one lacks
the slots of spare variables (`Lacks`). Nothing that is left uses such a variable, and what was
assigned to it is gone.
-/

namespace FrontEnd.Execution

section Removal

variable {globals : String → Option Entity} {returns : Option Ty} {env env' : Env Data}
  {name : String} {marks : List (List (String × Bool))}

namespace Lacks

theorem free (h : Lacks marks env env') (hfree : Free globals env name) :
    Free globals env' name := by
  refine ⟨fun slot hslot => hfree.new slot ?_, hfree.unhidden⟩
  cases h with
  | nil => exact hslot
  | cons hframe => exact hframe.subset hslot

theorem typed (h : Lacks marks env env') {type : Ty}
    (htype : entityIn globals env name = some (.type type)) :
    entityIn globals env' name = some (.type type) := by
  rw [entityIn_type, Env.find, List.find?_eq_none] at htype ⊢
  exact ⟨fun slot hslot => htype.1 slot (h.flatten.subset hslot), htype.2⟩

/-- An expression that names no spare variable. -/
theorem usable (h : Lacks marks env env') {expression : Expr} {entity : Option Entity}
    (husable : Usable globals env expression entity)
    (hunused : ∀ name, isSpare marks name = true → expression.names.contains name = false) :
    Usable globals env' expression entity := by
  refine husable.congr fun name hname => h.find ?_
  by_contra hspare
  have hnot := hunused name (by simpa using hspare)
  rw [List.contains_iff_mem.mpr hname] at hnot
  cases hnot

end Lacks

/-- What is left of a statement, and which variables are spare behind it. A declaration adds a
variable to those of the body; `hplain` is what there is to say of other statements. -/
theorem allowedAll_withoutSpare_of_plain {rest : List Stmt} {stmt : Stmt}
    {first : List (String × Bool)} {after : Env Data}
    (hunused : ∀ name, isSpare (first :: marks) name = true → usesFree name (stmt :: rest) = false)
    (hlacks : Lacks (first :: marks) env env') (h : Allowed globals returns stmt env after)
    (hplain : (∀ name, stmt.declares name = false) →
      (∀ name, isSpare (first :: marks) name = true → stmt.uses name = false) →
      ∃ after', AllowedAll globals returns (stmt.withoutSpare (isSpare (first :: marks))
        rest) env' after' ∧
        Lacks (first :: marks) after after') :
    ∃ after' next,
      AllowedAll globals returns (stmt.withoutSpare (isSpare (first :: marks)) rest) env' after' ∧
      Lacks (next :: marks) after after' ∧ spareBehind (isSpare (first :: marks)) rest stmt =
        isSpare (next :: marks) ∧
      ∀ name, isSpare (next :: marks) name = true → usesFree name rest = false := by
  rcases stmt.declaration_or_plain with ⟨type, name, location, rfl⟩ | hdeclares
  · obtain ⟨hfree, htype, rfl⟩ := h
    have hbehind := unused_behind hunused
    rw [Stmt.withoutSpare, spareBehind, ← isSpare_declare]
    cases huses : usesFree name rest with
    | true =>
      rw [huses, Bool.not_true] at hbehind
      refine ⟨_, _, ?_, hlacks.declare { name, type := type.text, location }, rfl, hbehind⟩
      rw [if_pos rfl]
      exact allowedAll_singleton.mpr ⟨hlacks.free hfree, hlacks.typed htype, rfl⟩
    | false =>
      rw [huses, Bool.not_false] at hbehind
      exact ⟨env', _, rfl, hlacks.declare_spare { name, type := type.text, location }, rfl, hbehind⟩
  · simp only [usesFree, hdeclares, Bool.or_eq_false_iff, Bool.not_false, Bool.true_and] at hunused
    obtain ⟨after', hkept, hafter⟩ := hplain hdeclares fun name hname => (hunused name hname).1
    exact ⟨after', first, hkept, hafter, (Stmt.plain hdeclares).spareBehind .., fun name hname =>
      (hunused name hname).2⟩

mutual

/-- What is left of a statement that declares nothing and uses no spare variable. -/
theorem allowedAll_withoutSpare (rest : List Stmt) : ∀ {stmt : Stmt}
    {marks : List (List (String × Bool))}
    {env env' after : Env Data}, (∀ name, stmt.declares name = false) →
    (∀ name, isSpare marks name = true → stmt.uses name = false) → Lacks marks env env' →
    Allowed globals returns stmt env after →
    ∃ after', AllowedAll globals returns (stmt.withoutSpare (isSpare marks) rest) env' after' ∧
    Lacks marks after after'
  | .expression value location, marks, env, env', after, _, hunused, hlacks, h => by
    obtain ⟨⟨entity, husable⟩, rfl⟩ := h
    rw [Stmt.withoutSpare]
    split
    · next hcall =>
      simp only [Stmt.uses, hcall, Bool.true_and] at hunused
      exact ⟨env', allowedAll_singleton.mpr ⟨⟨entity, hlacks.usable husable hunused⟩, rfl⟩, hlacks⟩
    · exact ⟨env', rfl, hlacks⟩
  | .declaration type name location, marks, env, env', after, hdeclares, _, _, _ => by
    simpa [Stmt.declares] using hdeclares name
  | .assignment target value location, marks, env, env', after, _, hunused, hlacks, h => by
    obtain ⟨slot, hfind, husable, rfl⟩ := h
    have husable' := hlacks.usable husable hunused
    rw [Stmt.withoutSpare]
    split
    · next hspare =>
      -- the slot gets a value, and what is left of the assignment changes nothing
      refine ⟨env', ?_, hlacks.update_spare hspare filled⟩
      rw [Stmt.ofSpareValue_eq, Stmt.ofBareValue]
      split
      · exact allowedAll_singleton.mpr ⟨⟨_, husable'⟩, rfl⟩
      · rw [AllowedAll]
    · next hspare =>
      have hkept : isSpare marks target.text = false := by simpa using hspare
      exact ⟨_, allowedAll_singleton.mpr ⟨slot, (hlacks.find hkept).trans hfind, husable', rfl⟩,
        hlacks.update hkept filled⟩
  | .conditional condition body location, marks, env, env', after, _, hunused, hlacks, h => by
    rw [Allowed] at h
    obtain ⟨husable, inner, hbody, rfl⟩ := h
    simp only [Stmt.uses, Bool.or_eq_false_iff] at hunused
    have hinside : ∀ name, isSpare ([] :: marks) name = true → usesFree name body = false :=
      fun name hname => (hunused name hname).2
    obtain ⟨inner', first, hbody', hinner⟩ := allowedAll_removeSpare hinside hlacks.push hbody
    refine ⟨inner'.tail, ?_, hinner.tail⟩
    rw [Stmt.withoutSpare, allowedAll_singleton, Allowed]
    exact ⟨hlacks.usable husable fun name hname => (hunused name hname).1, inner', hbody', rfl⟩
  | .result value location, marks, env, env', after, _, hunused, hlacks, h => by
    obtain ⟨⟨expected, hreturns, husable⟩, rfl⟩ := h
    rw [Stmt.withoutSpare]
    · exact ⟨env',
        allowedAll_singleton.mpr ⟨⟨expected, hreturns, hlacks.usable husable hunused⟩, rfl⟩, hlacks⟩
    all_goals simp
  | .function .., _, _, _, _, _, _, _, h => h.elim
  | .retain .., marks, env, env', after, _, _, hlacks, h | .release .., marks, env, env', after, _,
      _, hlacks, h => by
    cases (show after = env from h)
    rw [Stmt.withoutSpare]
    · exact ⟨env', allowedAll_singleton.mpr rfl, hlacks⟩
    all_goals simp

/-- **What is left of a block without its spare variables is allowed where the block is**, in the
environment without those around it. -/
theorem allowedAll_removeSpare : ∀ {block : List Stmt} {first : List (String × Bool)}
    {marks : List (List (String × Bool))} {env env' after : Env Data},
    (∀ name, isSpare (first :: marks) name = true → usesFree name block = false) →
    Lacks (first :: marks) env env' → AllowedAll globals returns block env after →
    ∃ after' last,
    AllowedAll globals returns (removeSpare (isSpare (first :: marks)) block) env' after' ∧
      Lacks (last :: marks) after after'
  | [], first, marks, env, env', after, _, hlacks, h => by
    cases (show after = env from h)
    exact ⟨env', first, by rw [removeSpare, AllowedAll], hlacks⟩
  | stmt :: block, first, marks, env, env', after, hunused, hlacks, h => by
    rw [AllowedAll] at h
    obtain ⟨middle, hstmt, hblock⟩ := h
    obtain ⟨middle', next, hstmt', hmiddle, hspare, hrest⟩ :=
      allowedAll_withoutSpare_of_plain hunused hlacks hstmt
      fun hdeclares huses => allowedAll_withoutSpare block hdeclares huses hlacks hstmt
    obtain ⟨after', last, hblock', hafter⟩ := allowedAll_removeSpare hrest hmiddle hblock
    rw [removeSpare, hspare]
    exact ⟨after', last, hstmt'.append hblock', hafter⟩

end

end Removal

end FrontEnd.Execution
