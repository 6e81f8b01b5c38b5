import FrontEnd.Proofs.Prune.Marks
import FrontEnd.Proofs.Prune.Removal
import FrontEnd.Proofs.Typing.Sound

/-!
# Checking keeps the behaviour of a program

What a check keeps of a program does what the program does: every function, given any values, takes
in the same lines, writes the same lines in the same order, and ends in the same way with the same
value (`check_preserves_behaviour`).

The bodies of one function before and after a check do the same if the functions that they call do
(`matches_execAll_removeSpare`), so this is proved for each bound on the depth of calls from smaller
bounds. The two runs are related for all choices of eager arguments.
-/

namespace FrontEnd.Execution

open Machine

section Programs

variable {setting : Setting} {functions checked : List FunctionDef}

/-- Evaluation in two stages keeps to the variables that an expression names. -/
theorem regular_staged {program program' : Program} {call call' : Machine.Caller Data Unit}
    (hglobal : ∀ name, (plain setting program').global? name = (plain setting program).global? name)
    (hcalls : CallersAgree (· = .stuck) call call') (eager : Expr → Bool) :
    Regular ((plain setting program).staged eager call) ((plain setting program').staged
      eager call') where
  agrees _ _ _ hfind := agrees_staged hglobal hcalls eager hfind
  idle expression hcall state := by
    rintro found rfl
    cases expression with
    | name name =>
      simp only [Machine.staged, Machine.settle, pure_bind, readName_plain]
      cases found.env.find name.text with
      | some => rfl
      | none => cases (plain setting program).global? name.text <;> rfl
    | integer => rfl
    | string => rfl
    | call => cases hcall

/-- **Calls do the same before and after a check**, whichever arguments are eager, unless a call
gets stuck. -/
theorem callersAgree_checked (h : Direct.CheckedFile functions checked) (eager : Expr → Bool) :
    ∀ depth, CallersAgree (· = .stuck)
      ((plainFile setting functions).call ((plainFile setting functions).staged eager) depth)
      ((plainFile setting checked).call ((plainFile setting checked).staged eager) depth) := by
  refine callersAgree_of_bodies sameHead_checked
    h.each fun depth function output values hmem hchecked hcalls _ => ?_
  have hregular :
      Regular ((plainFile setting functions).staged eager _)
        ((plainFile setting checked).staged eager _) :=
    regular_staged (global?_eq_of_forall₂ sameHead_checked h.each) hcalls eager
  have hstart : Lacks _ (Env.ofArguments function.parameters values) _ := .self _
  have hspare := isSpare_self (Env.ofArguments function.parameters values)
  rw [hchecked.body_eq (h.wellFormed function hmem), ← hspare]
  refine Relates.weaken (matches_execAll_removeSpare hregular function.body fun name hname => ?_) ?_
    fun _ _ _ _ hstate => ⟨hstate.1, trivial, hstate.2.2⟩
  · exact Bool.noConfusion (hname.symm.trans (congrFun hspare name))
  · rintro _ _ ⟨⟨henv, henv'⟩, hworld⟩
    exact ⟨by rw [henv, henv']; exact hstart, hworld⟩

/-! ### What those outside see -/

section

variable (h : Direct.CheckedFile functions checked) (eager : Expr → Bool)
include h eager

/-- Functions that were checked do not get stuck. -/
theorem call_ne_stuck {depth : Nat} {values : List (Value Data)} {state : State Data Unit}
    {function : FunctionDef} (hmem : function ∈ functions)
    (hfits : FitAll values function.parameters) {halt : Halt} {after : State Data Unit}
    (hcall : (plainFile setting functions).call ((plainFile setting functions).staged eager) depth
      function.name values state = .error halt after) : halt ≠ .stuck := by
  have hcalls := callSound_staged setting (allowedFile_of_checkedFile h) eager depth
  have hsound := hcalls.function h.nodup hmem hfits state.env state rfl
  rw [hcall] at hsound
  -- nothing but the bound on the depth of calls ends the run
  have hdepth : halt = .depth := hsound
  simp [hdepth]

/-- **A call looks the same from outside before and after a check**, whatever is passed to it and
whichever arguments are eager. -/
theorem observe_call_checked (depth : Nat) (name : String) (values : List (Value Data))
    (state : State Data Unit) :
    observe ((plainFile setting checked).call ((plainFile setting checked).staged eager) depth
        name values) state = observe ((plainFile setting functions).call
        ((plainFile setting functions).staged eager) depth name values) state := by
  refine observe_call_eq sameHead_checked h.each (callersAgree_checked h eager depth) ?_
  intro function hfind hfits halt after hcall
  have hname : function.name = name := by simpa using List.find?_some hfind
  exact call_ne_stuck h eager (List.mem_of_find?_eq_some hfind) hfits (hname ▸ hcall)

/-- A program that was checked never comes to something without a meaning. -/
theorem observe_main_checked (depth : Nat) (state : State Data Unit) :
    (observe ((plainFile setting functions).call ((plainFile setting functions).staged eager)
      depth "main" []) state).1 ≠ .error .stuck := by
  obtain ⟨function, hmem, hname⟩ := h.main
  have hparameters := ((h.wellFormed function hmem).main hname).2
  have hfits : FitAll [] function.parameters := hparameters ▸ .nil
  unfold observe
  cases hcall : (plainFile setting functions).call ((plainFile setting functions).staged eager)
      depth "main" [] state with
  | ok => simp
  | error => simpa using call_ne_stuck h eager hmem hfits (hname ▸ hcall)

end

end Programs

/-- **Checking keeps the behaviour of a program.** What is kept of a program does, from left to
right, what the program does: for all that may come in from outside, any bound on the depth of calls
and any values that are passed to a function, the call reads and writes the same lines, and ends in
the same way with the same value. The program itself does not come to anything without a meaning. -/
theorem check_preserves_behaviour {program out : Program} (h : program.check.result = .ok out)
    (setting : Setting) (depth : Nat) (name : String) (values : List (Value Data))
    (state : State Data Unit) :
    observe ((plain setting out).call (plain setting out).eval depth name values) state =
        observe ((plain setting program).call (plain setting program).eval depth name values)
          state ∧
      (observe ((plain setting program).call (plain setting program).eval depth "main" [])
        state).1 ≠ .error .stuck := by
  rw [Ordered.check_eq_direct_check] at h
  obtain ⟨functions, checked, rfl, rfl, hfile⟩ := Direct.check_eq_ok h
  rw [← staged_all, ← staged_all]
  exact ⟨observe_call_checked hfile _ depth name values state,
    observe_main_checked hfile _ depth state⟩

/-- Lines of which the third one differs. -/
def lateAnswer : Setting where
  line turn := if turn = 2 then "last" else "early"

theorem check_preserves_behaviour_unreadAnswers :
    unreadAnswers.check.warnings.length = 2 ∧
      ∃ out, unreadAnswers.check.result = .ok out ∧
        observe ((plain lateAnswer out).call (plain lateAnswer out).eval 2 "main" [])
          ⟨[], (), {}⟩ =
        (.ok .nothing,
          ⟨3, 1, [.read "early", .read "early", .read "last", .printed (some "last")]⟩) := by
  have hok : unreadAnswers.check.result.isOk = true := by decide +kernel
  refine ⟨by decide +kernel, ?_⟩
  cases hresult : unreadAnswers.check.result with
  | error => rw [hresult] at hok; cases hok
  | ok out =>
    refine ⟨out, rfl, (check_preserves_behaviour hresult _ _ _ _ _).1.trans ?_⟩
    decide +kernel

end FrontEnd.Execution
