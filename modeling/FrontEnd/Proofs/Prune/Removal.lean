import FrontEnd.Proofs.Execution.Plain
import FrontEnd.Proofs.Prune.Spare

/-!
# Running without spare variables

A block does the same when it is run without its spare variables, and leaves the same variables in
the bodies around it, but for those that are spare (`matches_execAll_removeSpare`).

The two runs go on in environments of which the second one lacks the slots of spare variables
(`Lacks`). The walk that removes spare variables knows at each name whether the variable behind it
is spare, and this is what the innermost slot of the name is marked with (`isSpare`). What is not
spare is found in both environments, nothing looks at what is, and what would be assigned to it is
gone from the second run.
-/

namespace FrontEnd.Execution

open Machine List

/-! ### Environments that lack slots -/

/-- Which names stand for a spare variable, if for each body from the innermost one on it is told
which variables it has and which of them are spare. -/
def isSpare (marks : List (List (String × Bool))) (name : String) : Bool :=
  (marks.flatten.find? (·.1 = name)).any (·.2)

/-- A frame, and what is left of it without the slots that are marked. -/
inductive FrameLacks : List (String × Bool) → List (Slot Data) → List (Slot Data) → Prop
  | nil : FrameLacks [] [] []
  | keep {marks : List (String × Bool)} {frame frame' : List (Slot Data)} (slot : Slot Data)
    (h : FrameLacks marks frame frame') :
    FrameLacks ((slot.name, false) :: marks) (slot :: frame) (slot :: frame')
  | drop {marks : List (String × Bool)} {frame frame' : List (Slot Data)} (slot : Slot Data)
    (h : FrameLacks marks frame frame') :
    FrameLacks ((slot.name, true) :: marks) (slot :: frame) frame'

/-- The second environment is the first one without the slots that are marked. -/
inductive Lacks : List (List (String × Bool)) → Env Data → Env Data → Prop
  | nil : Lacks [] [] []
  | cons {first : List (String × Bool)} {marks : List (List (String × Bool))}
    {frame frame' : List (Slot Data)} {env env' : Env Data} (hframe : FrameLacks first frame frame')
    (h : Lacks marks env env') :
    Lacks (first :: marks) (frame :: env) (frame' :: env')

theorem isSpare_declare (name : String) (value : Bool) (first : List (String × Bool))
    (marks : List (List (String × Bool))) :
    isSpare (((name, value) :: first) :: marks) = Function.update (isSpare (first :: marks))
      name value := by
  funext other
  by_cases hother : other = name
  · simp [isSpare, hother]
  · simp [isSpare, hother, Ne.symm hother]

/-- Behind a declaration the new variable is spare just where the block behind it does not use
it. -/
theorem unused_behind {first : List (String × Bool)} {marks : List (List (String × Bool))}
    {type : Name} {name : String} {location : Location} {block : List Stmt}
    (h : ∀ other, isSpare (first :: marks) other = true →
      usesFree other (.declaration type name location :: block) = false)
    (other : String)
    (hother : isSpare (((name, !usesFree name block) :: first) :: marks) other = true) :
    usesFree other block = false := by
  rw [isSpare_declare] at hother
  by_cases heq : other = name
  · simpa [heq] using hother
  · rw [Function.update_of_ne heq] at hother
    simpa [usesFree, Stmt.uses, Stmt.declares, Ne.symm heq] using h other hother

/-- At the start no variable is spare. -/
theorem isSpare_self (env : Env Data) :
    isSpare (env.map (·.map fun slot => (slot.name, false))) = fun _ => false := by
  funext name
  rw [isSpare, ← map_flatten, find?_map]
  cases env.flatten.find? _ <;> rfl

namespace FrameLacks

variable {marks more : List (String × Bool)} {frame frame' other other' : List (Slot Data)}
  {name : String}

theorem append (h : FrameLacks marks frame frame') (h' : FrameLacks more other other') :
    FrameLacks (marks ++ more) (frame ++ other) (frame' ++ other') := by
  induction h with
  | nil => exact h'
  | keep slot _ ih => exact .keep slot ih
  | drop slot _ ih => exact .drop slot ih

theorem subset (h : FrameLacks marks frame frame') : frame' ⊆ frame := by
  induction h with
  | nil => exact Subset.refl _
  | keep slot _ ih => exact cons_subset_cons slot ih
  | drop slot _ ih => exact subset_cons_of_subset slot ih

theorem self (frame : List (Slot Data)) :
    FrameLacks (frame.map fun slot => (slot.name, false)) frame frame := by
  induction frame with
  | nil => exact .nil
  | cons slot frame ih => exact .keep slot ih

section

variable (h : FrameLacks marks frame frame')
include h

/-- What is not marked is found in both frames. -/
theorem find (hname : (marks.find? (·.1 = name)).any (·.2) = false) :
    frame'.find? (·.name = name) = frame.find? (·.name = name) := by
  induction h with
  | nil => rfl
  | keep slot _ ih | drop slot _ ih => by_cases heq : slot.name = name <;> simp_all

theorem any (name : String) : frame.any (·.name = name) = (marks.find? (·.1 = name)).isSome := by
  induction h with
  | nil => rfl
  | keep slot _ ih | drop slot _ ih => by_cases heq : slot.name = name <;> simp_all

theorem any_kept (hname : (marks.find? (·.1 = name)).any (·.2) = false) :
    frame'.any (·.name = name) = (marks.find? (·.1 = name)).isSome := by
  induction h with
  | nil => rfl
  | keep slot _ ih | drop slot _ ih => by_cases heq : slot.name = name <;> simp_all

theorem updateFrame (hname : (marks.find? (·.1 = name)).any (·.2) = false) (value : Value Data) :
    FrameLacks marks (Env.updateFrame name value frame) (Env.updateFrame name value frame') := by
  induction h with
  | nil => exact .nil
  | keep slot h ih =>
    rw [Env.updateFrame, Env.updateFrame]
    by_cases heq : slot.name = name
    · rw [if_pos heq, if_pos heq]
      exact .keep { slot with value := value } h
    · rw [if_neg heq, if_neg heq]
      exact .keep slot (ih (by simpa [heq] using hname))
  | drop slot h ih =>
    by_cases heq : slot.name = name
    · simp [heq] at hname
    · rw [Env.updateFrame, if_neg heq]
      exact .drop slot (ih (by simpa [heq] using hname))

/-- A slot that is marked gets a value, which does not matter to the other frame. -/
theorem updateFrame_spare (hname : (marks.find? (·.1 = name)).any (·.2) = true)
    (value : Value Data) : FrameLacks marks (Env.updateFrame name value frame) frame' := by
  induction h with
  | nil => exact .nil
  | keep slot h ih =>
    by_cases heq : slot.name = name
    · simp [heq] at hname
    · rw [Env.updateFrame, if_neg heq]
      exact .keep slot (ih (by simpa [heq] using hname))
  | drop slot h ih =>
    rw [Env.updateFrame]
    by_cases heq : slot.name = name
    · rw [if_pos heq]
      exact .drop { slot with value := value } h
    · rw [if_neg heq]
      exact .drop slot (ih (by simpa [heq] using hname))

end

end FrameLacks

namespace Lacks

variable {first : List (String × Bool)} {marks : List (List (String × Bool))} {env env' : Env Data}
  {name : String}

theorem flatten (h : Lacks marks env env') : FrameLacks marks.flatten env.flatten env'.flatten := by
  induction h with
  | nil => exact .nil
  | cons hframe _ ih => exact hframe.append ih

theorem self (env : Env Data) : Lacks (env.map (·.map fun slot => (slot.name, false))) env env := by
  induction env with
  | nil => exact .nil
  | cons frame env ih => exact .cons (.self frame) ih

theorem find (h : Lacks marks env env') (hname : isSpare marks name = false) :
    Env.find env' name = Env.find env name :=
  h.flatten.find hname

theorem declare (h : Lacks (first :: marks) env env') (slot : Slot Data) :
    Lacks (((slot.name, false) :: first) :: marks) (Env.declare env slot)
      (Env.declare env' slot) := by
  cases h with
  | cons hframe h => exact .cons (.keep slot hframe) h

theorem declare_spare (h : Lacks (first :: marks) env env') (slot : Slot Data) :
    Lacks (((slot.name, true) :: first) :: marks) (Env.declare env slot) env' := by
  cases h with
  | cons hframe h => exact .cons (.drop slot hframe) h

/-- A variable that is not spare gets a value in both environments. -/
theorem update (h : Lacks marks env env') (hname : isSpare marks name = false)
    (value : Value Data) :
    Lacks marks (Env.update name value env) (Env.update name value env') := by
  induction h with
  | nil => exact .nil
  | @cons first marks frame frame' env env' hframe h ih =>
    rw [isSpare, flatten_cons, find?_append] at hname
    have hfirst : (first.find? (·.1 = name)).any (·.2) = false := by
      cases hfind : first.find? (·.1 = name) <;> simp_all
    rw [Env.update, Env.update, hframe.any, hframe.any_kept hfirst]
    split
    · exact .cons (hframe.updateFrame hfirst value) h
    · next hnone =>
      rw [Bool.not_eq_true, Option.isSome_eq_false_iff, Option.isNone_iff_eq_none] at hnone
      exact .cons hframe (ih (by simpa [isSpare, hnone] using hname))

/-- A spare variable gets a value, which does not matter to the other environment. -/
theorem update_spare (h : Lacks marks env env') (hname : isSpare marks name = true)
    (value : Value Data) :
    Lacks marks (Env.update name value env) env' := by
  induction h with
  | nil => exact .nil
  | @cons first marks frame frame' env env' hframe h ih =>
    rw [isSpare, flatten_cons, find?_append] at hname
    rw [Env.update, hframe.any]
    cases hfind : first.find? (·.1 = name) with
    | some => exact .cons (hframe.updateFrame_spare (by simpa [hfind] using hname) value) h
    | none => exact .cons hframe (ih (by simpa [isSpare, hfind] using hname))

theorem push (h : Lacks marks env env') : Lacks ([] :: marks) ([] :: env) ([] :: env') :=
  .cons .nil h

theorem tail (h : Lacks (first :: marks) env env') : Lacks marks env.tail env'.tail := by
  cases h with
  | cons _ h => exact h

end Lacks

/-! ### Runs in environments that lack slots -/

/-- Two ways to evaluate expressions that look at the variables they name and change none. They do
the same where these variables are the same, and nothing at all if an expression is no call. -/
structure Regular (evaluate evaluate' : Expr → Run Data Unit (Value Data)) : Prop where
  agrees : ∀ expression env env',
    (∀ name ∈ expression.names, Env.find env' name = Env.find env name) →
    Agrees (· = .stuck) env env' (evaluate expression) (evaluate' expression)
  idle : ∀ expression, expression.isCall = false → ∀ state,
    Holds (· = state) (evaluate expression) (fun _ after => after = state) (· = .stuck)

section Runs

variable {setting : Setting} {program program' : Program}
  {evaluate evaluate' : Expr → Run Data Unit (Value Data)} {expression : Expr}
  {marks : List (List (String × Bool))} {name : String}

/-- An expression that names no spare variable. -/
theorem Regular.matches (h : Regular evaluate evaluate')
    (hunused : ∀ name, isSpare marks name = true → expression.names.contains name = false) :
    Matches (· = .stuck) (Lacks marks) (evaluate expression) (evaluate' expression)
      (Lacks marks) := by
  refine matches_of_agrees fun env env' henv =>
    h.agrees expression env env' fun name hname => henv.find ?_
  by_contra hspare
  have hnot := hunused name (by simpa using hspare)
  rw [contains_iff_mem.mpr hname] at hnot
  cases hnot

/-- An expression that is no call changes nothing, so nothing needs to be done in its place. -/
theorem Regular.holds_of_idle (h : Regular evaluate evaluate') (hcall : expression.isCall = false)
    {P : State Data Unit → Prop} : Holds P (evaluate expression) (fun _ => P) (· = .stuck) :=
  fun state hstate =>
    Holds.weaken (h.idle expression hcall state) (fun _ => id)
      (fun _ _ hafter => hafter ▸ hstate) state rfl

/-- A value that would have been assigned to a spare variable. -/
theorem holds_assign_spare (hspare : isSpare marks name = true) (value : Value Data)
    (state' : State Data Unit) :
    Holds (fun state => Beside (Lacks marks) state state')
      ((plain setting program).assign name value) (fun _ state => Beside (Lacks marks) state state')
      (· = .stuck) := by
  refine Holds.get_bind fun state hstate => ?_
  cases state.env.find name with
  | none => exact .throw rfl
  | some slot =>
    refine (holds_expect_plain value slot.type state).bind fun _ => ?_
    refine .modifyEnv ?_
    rintro _ rfl
    exact ⟨hstate.1.update_spare hspare value, hstate.2⟩

mutual

/-- A statement that declares nothing and uses no spare variable does the same without them. -/
theorem matches_exec_withoutSpare (h : Regular evaluate evaluate') (rest : List Stmt) :
    ∀ (stmt : Stmt) {marks : List (List (String × Bool))}, (∀ name, stmt.declares name = false) →
    (∀ name, isSpare marks name = true → stmt.uses name = false) →
    Matches (· = .stuck) (Lacks marks) ((plain setting program).exec evaluate stmt)
      ((plain setting program').execAll evaluate' (stmt.withoutSpare (isSpare marks)
        rest)) (Lacks marks)
  | .expression expression location, marks, _, hunused => by
    rw [exec, Stmt.withoutSpare]
    simp only [Stmt.uses] at hunused
    cases hcall : expression.isCall with
    | true =>
      rw [if_pos rfl, execAll_singleton, exec]
      exact Relates.step (h.matches (by simpa [hcall] using hunused)) fun _ => matches_done
    | false =>
      rw [if_neg Bool.false_ne_true, execAll]
      exact Relates.left (fun _ => h.holds_of_idle hcall) fun _ => matches_done
  | .declaration type name location, marks, hdeclares, _ =>
    by simpa [Stmt.declares] using hdeclares name
  | .assignment target value location, marks, _, hunused => by
    rw [Stmt.withoutSpare]
    split
    · next hspare =>
      -- the assignment changes a slot that the other side does not have
      have hassign : ∀ result, Matches (· = .stuck) (Lacks marks)
          ((plain setting program).assign target.text result >>= fun _ => pure none)
          (pure (none : Option (Value Data))) (Lacks marks) :=
        fun result => Relates.left (holds_assign_spare hspare result) fun _ => matches_done
      rw [exec, Stmt.ofSpareValue_eq, Stmt.ofBareValue]
      cases hcall : value.isCall with
      | true =>
        rw [if_pos rfl, execAll_singleton, exec]
        exact Relates.step (h.matches hunused) hassign
      | false =>
        rw [if_neg Bool.false_ne_true, execAll]
        exact Relates.left (fun _ => h.holds_of_idle hcall) hassign
    · next hspare =>
      have hkept : isSpare marks target.text = false := by simpa using hspare
      rw [execAll_singleton, exec, exec]
      refine Relates.step (h.matches hunused) fun value => ?_
      refine Relates.step (matches_assign (fun _ _ henv => henv.find hkept)
        fun _ _ henv => henv.update hkept value) fun _ => ?_
      exact matches_done
  | .conditional condition body location, marks, _, hunused => by
    simp only [Stmt.uses, Bool.or_eq_false_iff] at hunused
    rw [Stmt.withoutSpare, execAll_singleton]
    have hbody : ∀ name, isSpare ([] :: marks) name = true → usesFree name body = false :=
      fun name hname => (hunused name hname).2
    refine matches_conditional (h.matches fun name hname => (hunused name hname).1)
      (matches_execAll_removeSpare h body hbody) (fun _ _ => Lacks.push) ?_
    rintro _ _ ⟨first, henv⟩
    exact henv.tail
  | .result value location, marks, _, hunused => by
    rw [Stmt.withoutSpare, execAll_singleton, exec, exec]
    · exact Relates.step (h.matches hunused) fun _ => matches_done
    all_goals simp
  | .function .., marks, _, _ => by
    rw [Stmt.withoutSpare, execAll_singleton, exec, exec]
    exact matches_throw
  | .retain .., marks, _, _ | .release .., marks, _, _ => by
    rw [Stmt.withoutSpare, execAll_singleton, exec, exec]
    · exact matches_done
    all_goals simp

/-- **A block does the same without its spare variables**, in the environment without those around
it. -/
theorem matches_execAll_removeSpare (h : Regular evaluate evaluate') : ∀ (block : List Stmt)
    {first : List (String × Bool)} {marks : List (List (String × Bool))},
    (∀ name, isSpare (first :: marks) name = true → usesFree name block = false) →
    Matches (· = .stuck) (Lacks (first :: marks)) ((plain setting program).execAll evaluate block)
      ((plain setting program').execAll evaluate' (removeSpare (isSpare (first :: marks)) block))
      fun env env' => ∃ first, Lacks (first :: marks) env env'
  | [], first, marks, _ => by
    rw [removeSpare, execAll, execAll]
    exact matches_pure fun _ _ henv => ⟨first, henv⟩
  | stmt :: block, first, marks, hunused => by
    rw [removeSpare, execAll, execAll_append]
    rcases stmt.declaration_or_plain with ⟨type, name, location, rfl⟩ | hdeclares
    · have hrest : Matches _ _ ((plain setting program).execAll evaluate block)
          ((plain setting program').execAll evaluate' _) _ :=
        matches_execAll_removeSpare h block (unused_behind hunused)
      rw [isSpare_declare] at hrest
      rw [exec, Stmt.withoutSpare, spareBehind]
      simp only [bind_assoc, pure_bind]
      cases huses : usesFree name block with
      | true =>
        rw [huses, Bool.not_true] at hrest
        rw [if_pos rfl, execAll_singleton, exec]
        simp only [bind_assoc, pure_bind]
        exact Relates.step (matches_modifyEnv fun _ _ henv => henv.declare _) fun _ => hrest
      | false =>
        rw [huses, Bool.not_false] at hrest
        rw [if_neg Bool.false_ne_true, execAll, pure_bind]
        refine Relates.left (fun state' => .modifyEnv fun state hstate => ?_) fun _ => hrest
        exact ⟨hstate.1.declare_spare { name, type := type.text, location }, hstate.2⟩
    · rw [(Stmt.plain hdeclares).spareBehind]
      simp only [usesFree, hdeclares, Bool.or_eq_false_iff, Bool.not_false,
        Bool.true_and] at hunused
      refine Relates.step (matches_exec_withoutSpare h block stmt hdeclares fun name hname =>
        (hunused name hname).1) fun result => ?_
      cases result with
      | some => exact matches_pure fun _ _ henv => ⟨first, henv⟩
      | none => exact matches_execAll_removeSpare h block fun name hname => (hunused name hname).2

end

end Runs

end FrontEnd.Execution
