import FrontEnd.Proofs.Refcount.Kept

/-!
# References are counted right

A program that was compiled with its reference counts counts them right in all its runs
(`compile_countsReferences`). A call changes no count but that of its value (`callsOwn_lower`), so
no run goes wrong for its references; and then counting does not show (`observe_main_counted`), so
that a run of `main` ends as it does without counting.
-/

namespace FrontEnd

/-- What a text has to be for its program to be compiled, and what comes out. -/
theorem compile_eq_ok {source : String} {options : Options} {program : Program}
    (h : (compile source options).result = .ok program) :
    ∃ functions checked, Program.read source = .ok (functions.map FunctionDef.toStmt) ∧
      Direct.CheckedFile functions checked ∧
      program = if options.lowerRefcounts then Refcount.lower (checked.map FunctionDef.toStmt)
        else checked.map FunctionDef.toStmt := by
  unfold compile at h
  split at h
  · cases h
  · next read hread =>
    split at h
    · cases h
    · next out warnings hcheck =>
      have hdirect : (Direct.check read).result = .ok out := by
        rw [← Ordered.check_eq_direct_check, hcheck]
      obtain ⟨functions, checked, rfl, rfl, hfile⟩ := Direct.check_eq_ok hdirect
      refine ⟨functions, checked, hread, hfile, ?_⟩
      simp only [Options.apply] at h
      split at h <;> cases h
      rfl

end FrontEnd

namespace FrontEnd.Execution

open Refcount Machine
open FunctionDef (toStmt)

/-- A run of a program, with a bound on the depth of calls. -/
abbrev Machine.runMain {ρ σ : Type} (machine : Machine ρ σ) (depth : Nat) : Run ρ σ (Value ρ) :=
  machine.call machine.eval depth "main" []

section Calls

variable {ρ σ : Type} {machine : Machine ρ σ} {P : State ρ σ → Prop} {α : Type} {action : Run ρ σ α}
  {state after : State ρ σ}

theorem Machine.observe_of_ok {value : α} (h : action state = .ok value after) :
    observe action state = (.ok value, after.world) := by
  rw [observe, h]

theorem Machine.observe_of_error {halt : Halt} (h : action state = .error halt after) :
    observe action state = (.error halt, after.world) := by
  rw [observe, h]

/-- The reasons to end early that have nothing to do with references. -/
theorem miscounts_or (halt : Halt) : Miscounts halt ∨ halt = .depth ∨ halt = .stuck := by
  cases halt <;> simp [Miscounts]

theorem Holds.anything : Holds P action (fun _ _ => True) fun _ => True := by
  intro state _
  cases action state <;> trivial

/-- A function that says that it returns nothing does so. -/
theorem invoke_nothing {evaluate : Expr → Run ρ σ (Value ρ)} {function : FunctionDef}
    (h : function.returnType = none) (values : List (Value ρ)) :
    Holds P (machine.invoke evaluate function values) (fun value _ => value = .nothing)
      fun _ => True := by
  have hconclude (result : Option (Value ρ)) : Holds (fun _ => True)
      (machine.conclude function.returnType result) (fun value _ => True ∧ value = .nothing)
      fun _ => True := by
    rw [h]
    cases result with
    | none => exact .pure fun _ _ => ⟨trivial, rfl⟩
    | some => exact .throw trivial
  unfold invoke
  refine Holds.anything.bind fun _ => .get_bind fun before _ => ?_
  refine Holds.anything.bind fun _ => Holds.anything.bind fun result =>
    Holds.anything.bind fun _ => ?_
  refine Holds.step (hconclude result) fun value hvalue => ?_
  exact Holds.anything.bind fun _ => .pure fun _ _ => hvalue

end Calls

section Files

variable {functions checked : List FunctionDef} {setting : Setting}

/-- The lowered functions of a file hand over one reference when they are called. -/
theorem callsOwn_lower (h : Direct.CheckedFile functions checked)
    (hread : ∀ function ∈ functions, function.places.Nodup ∧ Stmt.writtenAll function.body = true)
    (depth : Nat) :
    CallsOwn (.ofProgram (checked.map toStmt)) ((counted setting (lower (checked.map toStmt))).call
        (counted setting (lower (checked.map toStmt))).eval depth) := by
  obtain ⟨lowered, hlower, hfrom⟩ :=
    (Context.ofProgram (checked.map toStmt)).lower_functions checked
  rw [lower, hlower]
  exact callsOwn_lowered (nodup_checked h) (ne_builtin_checked h) hfrom
    (fun _ => suited_checked h hread) depth

/-- The function that a run starts with returns nothing, lowered or not. -/
theorem returnType_main (h : Direct.CheckedFile functions checked) {output : FunctionDef}
    (houtput : output ∈ checked) (hname : output.name = "main") : output.returnType = none := by
  obtain ⟨function, hfunction, hchecked⟩ := exists_mem_of_forall₂ h.each houtput
  have hhead := sameHead_checked hchecked
  rw [hhead.returnType]
  exact ((h.wellFormed function hfunction).main (hhead.name ▸ hname)).1

theorem runMain_nothing {ρ σ : Type} (memory : Memory ρ σ) {P : State ρ σ → Prop}
    (h : Direct.CheckedFile functions checked) (depth : Nat) :
    Holds P (runMain ⟨memory, setting, lower (checked.map toStmt)⟩ depth)
      (fun value _ => value = .nothing) fun _ => True := by
  obtain ⟨lowered, hlower, hfrom⟩ :=
    (Context.ofProgram (checked.map toStmt)).lower_functions checked
  rw [lower, hlower, runMain]
  have hbuiltin : builtin? ⟨memory, setting, lowered.map toStmt⟩ "main" [] = none :=
    builtin?_eq_none (by simp) (by simp)
  rcases find?_forall₂ sameHead_lowered hfrom "main" with
    ⟨-, hnone⟩ | ⟨function, output, hfunction, houtput, hmem, hpair⟩
  · rw [call_undefined hbuiltin (by rw [definition?_eq, hnone])]
    exact .throw trivial
  · cases depth with
    | zero =>
      rw [call_zero hbuiltin (by rw [definition?_eq, houtput])]
      exact .throw trivial
    | succ =>
      rw [call_succ hbuiltin (by rw [definition?_eq, houtput])]
      have hname : function.name = "main" := by simpa using List.find?_some hfunction
      exact invoke_nothing ((sameHead_lowered hpair).returnType.trans
        (returnType_main h hmem hname)) []

/-- As long as nothing goes wrong with references, a counted run shows what the plain one shows, and
that comes to its end or to its bound. -/
theorem observe_runMain_counted (h : Direct.CheckedFile functions checked) {program : Program}
    (hprogram : program = lower (checked.map toStmt)) (depth : Nat) :
    match (counted setting program).runMain depth ⟨[], [], {}⟩ with
    | .ok value after => value = .nothing ∧
        observe ((plain setting program).runMain depth) ⟨[], (), {}⟩ = (.ok .nothing, after.world)
    | .error halt after => Miscounts halt ∨ halt = .depth ∧
        observe ((plain setting program).runMain depth) ⟨[], (), {}⟩ =
          (.error .depth, after.world) := by
  subst hprogram
  -- the counted run is the plain one as long as no reference is miscounted
  have herases : Erases [] ((counted setting (lower (checked.map toStmt))).runMain depth)
      ((plain setting (lower (checked.map toStmt))).runMain depth) Shows :=
    callersErase setting _ depth "main" [] [] [] .nil
  have hnothing :
      Holds (fun _ => True) ((counted setting (lower (checked.map toStmt))).runMain depth)
        (fun value _ => value = .nothing) fun _ => True := runMain_nothing Memory.counted h depth
  -- the plain run is that of the checked file, which never gets stuck
  have hmeaning : (observe ((plain setting (lower (checked.map toStmt))).runMain depth)
      ⟨[], (), {}⟩).1 ≠ .error .stuck := by
    rw [runMain, observe_call_lower h, observe_call_checked h]
    exact observe_main_checked h _ depth _
  have hshown := herases ⟨[], [], {}⟩ ⟨[], (), {}⟩ ⟨.refl _, .nil, rfl⟩
  have hvalue := hnothing ⟨[], [], {}⟩ trivial
  cases hrun : (counted setting (lower (checked.map toStmt))).runMain depth ⟨[], [], {}⟩ with
  | ok =>
    rw [hrun] at hshown hvalue
    obtain ⟨shown, after', hplain, hshows, -, -, hworld⟩ := hshown
    cases hvalue
    cases hshows
    exact ⟨rfl, hworld ▸ observe_of_ok hplain⟩
  | error halt =>
    rw [hrun] at hshown
    rcases hshown with hmiscounts | ⟨after', hplain, hworld⟩
    · exact .inl hmiscounts
    · have hobserve := hworld ▸ observe_of_error hplain
      rcases miscounts_or halt with hmiscounts | rfl | rfl
      · exact .inl hmiscounts
      · exact .inr ⟨rfl, hobserve⟩
      · exact absurd (congrArg Prod.fst hobserve) hmeaning

/-- What is accounted for by nobody has no references. -/
theorem count_eq_zero_of_counts {heap : Heap} (h : Counts (fun _ => 0) [] heap) {object : Object}
    (hobject : object ∈ heap) : object.count = 0 := by
  obtain ⟨address, hlt, rfl⟩ := List.mem_iff_getElem.mp hobject
  have hcount : heap.count address = 0 := h address
  unfold Heap.count at hcount
  rw [List.getElem?_eq_getElem hlt] at hcount
  exact hcount

end Files

/-- **References are counted right.** Let a text be compiled with reference counts, and run with
whatever is read, whatever way conditions turn out, and any bound on the depth of calls. The run
never touches an object without references or counts for a variable that is not there, and no call
in it changes the counts of objects but for one more reference to its value: it comes to its end or
meets its bound, as it does without counting. At the end no object has references left. A call of
any function, from any state in which there are references to its arguments, goes wrong in none of
these ways either; it leaves all counts as they were, but for one more reference to its value. -/
theorem compile_countsReferences {source : String} {options : Options} {program : Program}
    (hlower : options.lowerRefcounts = true) (h : (compile source options).result = .ok program)
    (setting : Setting) (depth : Nat) :
    (match (counted setting program).runMain depth ⟨[], [], {}⟩ with
      | .ok value after => value = .nothing ∧ (∀ object ∈ after.store, object.count = 0) ∧
          Machine.observe ((plain setting program).runMain depth) ⟨[], (), {}⟩ =
            (.ok .nothing, after.world)
      | .error halt after => halt = .depth ∧
          Machine.observe ((plain setting program).runMain depth) ⟨[], (), {}⟩ =
            (.error .depth, after.world)) ∧
    ∀ (name : String) (values : List (Value Nat)) (state : State Nat Heap),
      (∀ address, .object address ∈ values → 0 < state.store.count address) →
      match (counted setting program).call (counted setting program).eval depth name
        values state with
      | .ok value after => after.env = state.env ∧ ∀ address, after.store.count address =
          state.store.count address + if value = .object address then 1 else 0
      | .error halt _ => halt = .depth ∨ halt = .stuck := by
  obtain ⟨functions, checked, hread, hfile, hprogram⟩ := compile_eq_ok h
  rw [if_pos hlower] at hprogram
  have hplaces :
      ∀ function ∈ functions, function.places.Nodup ∧ Stmt.writtenAll function.body = true :=
    fun function hmem => Program.read_places hread (List.mem_map_of_mem hmem)
  have hcalls : CallsOwn (.ofProgram (checked.map FunctionDef.toStmt))
      ((counted setting program).call (counted setting program).eval depth) :=
    hprogram ▸ callsOwn_lower hfile hplaces depth
  refine ⟨?_, fun name values state halive => ?_⟩
  · have hmain : Safe (Books [] (fun _ => 0) []) ((counted setting program).runMain depth) _ :=
      hcalls "main" [] [] (fun _ => 0) [] (by simp)
    have hsafe := hmain ⟨[], [], {}⟩ ⟨rfl, fun _ => rfl⟩
    have hshown := @observe_runMain_counted _ _ setting hfile _ hprogram depth
    cases hrun : (counted setting program).runMain depth ⟨[], [], {}⟩ with
    | ok value after =>
      rw [hrun] at hshown hsafe
      obtain ⟨rfl, hplain⟩ := hshown
      have hcounts : Counts (fun _ => 0) [] after.store := (Counts.cons_iff rfl).mp hsafe.1.2
      exact ⟨rfl, fun _ => count_eq_zero_of_counts hcounts, hplain⟩
    | error =>
      rw [hrun] at hshown hsafe
      exact hshown.resolve_left hsafe
  · have hbacked : ∀ value ∈ values, Backed state.store.count [] value := by
      rintro _ hvalue address rfl
      exact .inl (halive address hvalue)
    have hsafe := hcalls name values state.env state.store.count [] hbacked state
      ⟨rfl, Counts.self _⟩
    cases hcall : (counted setting program).call (counted setting program).eval depth name
      values state with
    | ok =>
      rw [hcall] at hsafe
      obtain ⟨⟨henv, hcounts⟩, -⟩ := hsafe
      refine ⟨henv, fun address => ?_⟩
      rw [hcounts address, List.count_singleton]
      simp
    | error halt =>
      rw [hcall] at hsafe
      exact (miscounts_or halt).resolve_left hsafe

/-- A program that passes a text to a function, which may replace it by one that is read, in a body
that it returns from. -/
def replacedLine : String :=
  "function f(String s) returns String \x7b
if TRUE \x7b s = input(); return s; \x7d
return s;
\x7d
function main() \x7b print(f(\"none\")); \x7d"

theorem compile_countsReferences_replacedLine :
    ∃ program after, (compile replacedLine {}).result = .ok program ∧
      (counted lateAnswer program).runMain 2 ⟨[], [], {}⟩ = .ok .nothing after ∧
      after.store.map (·.data) = [.text "none", .text "early"] ∧
      (∀ object ∈ after.store, object.count = 0) ∧ ∀ depth,
      match (counted lateAnswer program).call (counted lateAnswer program).eval depth
        "f" [.object 0] ⟨[], [⟨.text "kept", 1⟩], {}⟩ with
      | .ok value after => after.env = [] ∧ ∀ address, after.store.count address =
          Heap.count [⟨.text "kept", 1⟩] address + if value = .object address then 1 else 0
      | .error halt _ => halt = .depth ∨ halt = .stuck := by
  have hwithin : (Lexer.ofSource replacedLine).itemsWithin 150 = tokenize replacedLine :=
    Lexer.itemsWithin_eq (by decide +kernel)
  have hrun : ((compile replacedLine {}).result.toOption.any fun program =>
        match (counted lateAnswer program).runMain 2 ⟨[], [], {}⟩ with
        | .ok _ after => after.store.map (·.data) = [.text "none", .text "early"]
        | .error _ _ => false) = true := by
    rw [compile, Program.read, Program.tokens, ← hwithin]
    decide +kernel
  cases hresult : (compile replacedLine {}).result with
  | error => rw [hresult] at hrun; cases hrun
  | ok program =>
    rw [hresult, Except.toOption, Option.any_some] at hrun
    have hsafe := (compile_countsReferences rfl hresult lateAnswer 2).1
    have hcalls (depth : Nat) := (compile_countsReferences rfl hresult lateAnswer depth).2
    cases hmain : (counted lateAnswer program).runMain 2 ⟨[], [], {}⟩ with
    | error => simp only [hmain] at hrun; cases hrun
    | ok value after =>
      simp only [hmain] at hrun
      rw [hmain] at hsafe
      obtain ⟨rfl, hcounts, -⟩ := hsafe
      refine ⟨program, after, rfl, hmain, of_decide_eq_true hrun, hcounts, fun depth => ?_⟩
      refine hcalls depth "f" [.object 0] ⟨[], [⟨.text "kept", 1⟩], {}⟩ fun address haddress => ?_
      obtain rfl : address = 0 := by simpa using haddress
      exact Nat.one_pos

end FrontEnd.Execution
