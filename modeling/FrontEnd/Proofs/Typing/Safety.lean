import FrontEnd.Proofs.Prune.Behaviour

/-!
# Type safety

A program that was checked and what the check keeps of it are safe to run. The calls of their
functions never come to something without a meaning, and give values of the types that their heads
announce (`check_typeSafe`). In particular this holds for `main`, which takes no arguments.

For the program itself this is soundness of the check, function by function (`callSound_staged`).
What is kept of the program has the same functions with smaller bodies, and its calls look the same
from outside (`observe_call_checked`), so whatever is known of the end of a call carries over.
-/

namespace FrontEnd.Execution

open Machine

/-- The end of a call that was safe: a value that fits the type that the function returns, if there
is one. Otherwise calls were nested more deeply than the run allows, which is no fault of the
program. -/
def SafeEnd (returnType : Option Name) : Except Halt (Value Data) → Prop
  | .ok value => ∀ type ∈ returnType, Fits value type.text
  | .error halt => halt = .depth

/-- All functions of a program are safe to call, with all values that fit their parameters. -/
def SafeToCall (machine : Machine Data Unit) : Prop :=
  ∀ function ∈ machine.program.filterMap Stmt.toFunctionDef?, ∀ values,
    FitAll values function.parameters → ∀ depth state,
      SafeEnd function.returnType
        (observe (machine.call machine.eval depth function.name values) state).1

/-- One of the functions is `main`, which takes no arguments, and it is safe to run. -/
def SafeToRun (machine : Machine Data Unit) : Prop :=
  (∃ main ∈ machine.program.filterMap Stmt.toFunctionDef?,
    main.name = "main" ∧ main.parameters = []) ∧
    ∀ depth state, SafeEnd none (observe (machine.call machine.eval depth "main" []) state).1

section Files

variable {setting : Setting} {functions checked : List FunctionDef}

/-- A call that soundness speaks about ends safely. -/
theorem safeEnd_of_gives {action : Run Data Unit (Value Data)} {returnType : Option Name}
    {state : State Data Unit}
    (h : Gives state.env (returnType.map fun type => .value (.named type.text)) action) :
    SafeEnd returnType (observe action state).1 := by
  have hstate := h state rfl
  unfold observe
  cases haction : action state with
  | error =>
    rw [haction] at hstate
    exact hstate
  | ok =>
    rw [haction] at hstate
    intro type htype
    -- the entity that the value fits is named by the head of the function
    obtain ⟨-, hfits⟩ := hstate
    exact hfits type.text (by rw [Option.mem_def.mp htype]; rfl)

/-- The functions that were checked are safe to call. -/
theorem safeToCall_functions (h : Direct.CheckedFile functions checked) :
    SafeToCall (plainFile setting functions) := by
  intro function hmem values hfits depth state
  rw [functions_of_file] at hmem
  rw [← staged_all]
  have hsound := callSound_staged setting (allowedFile_of_checkedFile h) (fun _ => true) depth
  have hgives := hsound.function h.nodup hmem hfits state.env
  apply safeEnd_of_gives
  simpa only [FunctionDef.signature, Option.map_map, Function.comp_def] using hgives

/-- What is kept of them is safe to call too: each function that is kept is one that was checked,
with the same head, and calls of the two look the same from outside. -/
theorem safeToCall_checked (h : Direct.CheckedFile functions checked) :
    SafeToCall (plainFile setting checked) := by
  intro output hmem values hfits depth state
  rw [functions_of_file] at hmem
  have hobserve : observe ((plainFile setting checked).call
      ((plainFile setting checked).staged fun _ => true) depth output.name values) state = _ :=
    observe_call_checked h _ depth output.name values state
  rw [staged_all, staged_all] at hobserve
  rw [hobserve]
  have hfind := Direct.find_file_of_mem (nodup_checked h) hmem
  rcases find?_forall₂ sameHead_checked h.each output.name with
    ⟨-, hnone⟩ | ⟨function, found, hfunction, hfound, hin, hchecked⟩
  · rw [hfind] at hnone
    cases hnone
  · rw [hfind] at hfound
    cases hfound
    have hhead := sameHead_checked hchecked
    have hname : function.name = output.name := by simpa using List.find?_some hfunction
    rw [hhead.parameters] at hfits
    rw [hhead.returnType, ← hname]
    exact safeToCall_functions h function (by rwa [functions_of_file]) values hfits depth state

/-- A program whose functions are safe to call is safe to run, if it has a `main` without
arguments. -/
theorem SafeToCall.safeToRun {machine : Machine Data Unit} (h : SafeToCall machine)
    {main : FunctionDef} (hmem : main ∈ machine.program.filterMap Stmt.toFunctionDef?)
    (hname : main.name = "main") (hparameters : main.parameters = []) : SafeToRun machine := by
  refine ⟨⟨main, hmem, hname, hparameters⟩, fun depth state => ?_⟩
  have hfits : FitAll [] main.parameters := hparameters ▸ .nil
  have hend := h main hmem [] hfits depth state
  rw [hname] at hend
  generalize (observe (machine.call machine.eval depth "main" []) state).1 = outcome at hend
  cases outcome with
  | error => exact hend
  | ok => exact fun type htype => by cases htype

end Files

/-- **Checked programs are type-safe.** Neither a program that was checked nor what is kept of it
comes to something without a meaning, such as a call where a variable hides the function, for all
that may come in from outside and any bound on the depth of calls: `main` runs safely, and so does
each function with all values that fit its parameters. Where a function returns a type, the value of
a call that is completed fits it. -/
theorem check_typeSafe {program out : Program} (h : program.check.result = .ok out)
    (setting : Setting) :
    (SafeToRun (plain setting program) ∧ SafeToCall (plain setting program)) ∧
      SafeToRun (plain setting out) ∧ SafeToCall (plain setting out) := by
  rw [Ordered.check_eq_direct_check] at h
  obtain ⟨functions, checked, rfl, rfl, hfile⟩ := Direct.check_eq_ok h
  obtain ⟨main, hmem, hname⟩ := hfile.main
  have hparameters := ((hfile.wellFormed main hmem).main hname).2
  have hfunctions : SafeToCall (plainFile setting functions) := safeToCall_functions hfile
  have hchecked : SafeToCall (plainFile setting checked) := safeToCall_checked hfile
  refine ⟨⟨hfunctions.safeToRun ?_ hname hparameters, hfunctions⟩, ?_, hchecked⟩
  · rwa [functions_of_file]
  · -- the check keeps `main`, with its head
    rcases find?_forall₂ sameHead_checked hfile.each "main" with
      ⟨hnone, -⟩ | ⟨function, output, hfunction, houtput, -, hpair⟩
    · exact absurd (decide_eq_true hname) (List.find?_eq_none.mp hnone main hmem)
    · have hfind := Direct.find_file_of_mem hfile.nodup hmem
      rw [hname, hfunction] at hfind
      cases hfind
      have hhead := sameHead_checked hpair
      refine hchecked.safeToRun ?_ (hhead.name.trans hname) (hhead.parameters.trans hparameters)
      rw [functions_of_file]
      exact List.mem_of_find?_eq_some houtput

/-- A program in which `main` passes a variable without a value to a function further down, which
calls itself with a variable that hides its own parameter. -/
def hiddenGiven : Program :=
  let name (text : String) : Name := ⟨text, default⟩
  let use (text : String) : Expr := .name (name text)
  let call (text : String) (arguments : List Expr) : Expr := .call (use text) arguments default
  [.function "main" [] none
      [.declaration (name "String") "line" default,
        .conditional (use "FALSE")
          [.assignment (name "line") (.string "set" default) default] default,
        .expression (call "print" [call "choose" [use "line", use "FALSE"]]) default] default,
    .function "choose" [⟨name "String", name "given"⟩, ⟨name "Bool", name "last"⟩]
      (some (name "String")) [.conditional (use "last") [.result (use "given") default] default,
        .conditional (use "TRUE")
          [.declaration (name "String") "given" default,
            .assignment (name "given") (call "input" []) default,
            .result (call "choose" [use "given", use "TRUE"]) default] default,
        .result (use "given") default] default]

theorem check_typeSafe_hiddenGiven :
    ∃ out, hiddenGiven.check.result = .ok out ∧
      Machine.observe ((plain lateAnswer out).call (plain lateAnswer out).eval 3 "main" [])
        ⟨[], (), {}⟩ = (.ok .nothing, ⟨1, 4, [.read "early", .printed (some "early")]⟩) ∧
      SafeToRun (plain lateAnswer hiddenGiven) ∧ SafeToRun (plain lateAnswer out) ∧
      SafeToCall (plain lateAnswer out) := by
  obtain ⟨out, hresult, hobserve⟩ : ∃ out, hiddenGiven.check.result = .ok out ∧
      Machine.observe ((plain lateAnswer out).call (plain lateAnswer out).eval 3 "main" [])
        ⟨[], (), {}⟩ = (.ok .nothing, ⟨1, 4, [.read "early", .printed (some "early")]⟩) :=
    exists_kept (by decide +kernel)
  have hsafe := check_typeSafe hresult lateAnswer
  exact ⟨out, hresult, hobserve, hsafe.1.1, hsafe.2⟩

end FrontEnd.Execution
