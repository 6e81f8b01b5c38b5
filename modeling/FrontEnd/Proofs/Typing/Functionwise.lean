import FrontEnd.Proofs.Prune.Marks

/-!
# Functions are checked on their own

The heads of the functions of a file are declared one after the other, in a scope that grows, and
then the bodies are checked one after the other. None of this order shows. Whether a file can be
checked is a matter of rules for each of its functions, given what the names of the file stand for
(`Execution.isOk_check_iff`), and that does not depend on the order (`Execution.globals_of_perm`).
What is kept of a function and the warnings about it are a matter of its own statements. So
functions can change places, and other functions can get other bodies, and the report on each
function stays the same (`check_functionwise`).
-/

namespace FrontEnd

open Program

open FunctionDef (toStmt)

namespace Execution

open Direct (Stack)

section Files

variable {functions others : List FunctionDef}

/-- In a file with different names, the order of the functions does not matter to a search. -/
theorem find?_of_perm (hperm : functions.Perm others) (hnodup : (functions.map (·.name)).Nodup)
    (name : String) :
    others.find? (·.name = name) = functions.find? (·.name = name) := by
  have hnodup' : (others.map (·.name)).Nodup := (hperm.map _).nodup_iff.mp hnodup
  cases hfind : functions.find? (·.name = name) with
  | some function =>
    have hname : function.name = name := by simpa using List.find?_some hfind
    have hmem : function ∈ others := hperm.subset (List.mem_of_find?_eq_some hfind)
    rw [← hname]
    exact Direct.find_file_of_mem hnodup' hmem
  | none =>
    rw [List.find?_eq_none] at hfind ⊢
    exact fun function hmem => hfind function (hperm.symm.subset hmem)

/-- What the names of a file stand for does not depend on the order of the functions. -/
theorem globals_of_perm (hperm : functions.Perm others) (hnodup : (functions.map (·.name)).Nodup) :
    globals others = globals functions := by
  funext name
  rw [globals_eq, globals_eq, find?_of_perm hperm hnodup name]

/-- A file keeps the rules in any order of its functions. -/
theorem AllowedFile.of_perm (h : AllowedFile functions) (hperm : functions.Perm others) :
    AllowedFile others := by
  have hglobals := globals_of_perm hperm h.nodup
  have hmem : ∀ function ∈ others, function ∈ functions := fun _ hmem => hperm.symm.subset hmem
  refine ⟨fun function hother => h.wellFormed function (hmem function hother), ?_, ?_,
    fun function hother => ?_⟩
  · exact (hperm.map _).nodup_iff.mp h.nodup
  · obtain ⟨function, hfunction, hname⟩ := h.main
    exact ⟨function, hperm.subset hfunction, hname⟩
  · obtain ⟨hbody, hends, hfree⟩ := h.each function (hmem function hother)
    exact ⟨hglobals ▸ hbody, hends, hglobals ▸ hfree⟩

/-- **A file can be checked if and only if it keeps the rules.** -/
theorem isOk_check_iff : (check (functions.map toStmt)).result.isOk = true ↔
    AllowedFile functions := by
  rw [Ordered.check_eq_direct_check]
  constructor
  · intro h
    cases hresult : (Direct.check (functions.map toStmt)).result with
    | error => rw [hresult] at h; cases h
    | ok =>
      obtain ⟨others, checked, hsame, -, hfile⟩ := Direct.check_eq_ok hresult
      have heq : functions = others := by
        have hfunctions := functions_of_toStmt functions
        rw [hsame, functions_of_toStmt] at hfunctions
        exact (Except.ok.inj hfunctions).symm
      exact heq ▸ allowedFile_of_checkedFile hfile
  · intro h
    rw [check_of_allowedFile_eq h]
    rfl

/-- The report on a function of a file that keeps the rules, in the scope of that file. -/
theorem AllowedFile.check_function (h : AllowedFile functions) {function : FunctionDef}
    (hmem : function ∈ functions) :
    function.check (Scope.file functions) = ⟨.ok function.withoutSpare, function.cautions⟩ := by
  rw [← Ordered.checkFunction_asNoted, Ordered.checkFunction_eq_direct Order.asNoted_rearranges]
  exact checkFunction_eq h.nodup hmem (h.wellFormed function hmem) (h.each function hmem)

end Files

end Execution

open Execution in
/-- **Neither the order of functions nor other bodies matter.** A file can be checked if and only if
it can be checked with its functions in another order. Then what is kept of each function, and the
warnings about it, are the same in both, one function after the other. They are also the report on
the function alone, in the scope of its file, and this is the same in every file that has the
function and can be checked, whatever the bodies of the other functions are. -/
theorem check_functionwise {functions others : List FunctionDef} (hperm : functions.Perm others) :
    ((check (functions.map FunctionDef.toStmt)).result.isOk = true ↔
      (check (others.map FunctionDef.toStmt)).result.isOk = true) ∧
    ((check (functions.map FunctionDef.toStmt)).result.isOk = true →
      check (functions.map FunctionDef.toStmt) =
          ⟨.ok (functions.map fun function => function.withoutSpare.toStmt),
            functions.flatMap FunctionDef.cautions⟩ ∧
        check (others.map FunctionDef.toStmt) =
          ⟨.ok (others.map fun function => function.withoutSpare.toStmt),
            others.flatMap FunctionDef.cautions⟩ ∧
        ∃ file, fileScope functions = .ok file ∧ ∀ function ∈ functions,
          function.check file = ⟨.ok function.withoutSpare, function.cautions⟩ ∧
          ∀ changed : List FunctionDef, function ∈ changed →
            (check (changed.map FunctionDef.toStmt)).result.isOk = true →
            ∃ changedFile, fileScope changed = .ok changedFile ∧
              function.check changedFile = function.check file) := by
  simp only [isOk_check_iff]
  refine ⟨⟨fun h => h.of_perm hperm, fun h => h.of_perm hperm.symm⟩, fun h => ⟨?_, ?_, ?_⟩⟩
  · rw [Ordered.check_eq_direct_check, check_of_allowedFile_eq h, List.map_map]
    rfl
  · rw [Ordered.check_eq_direct_check, check_of_allowedFile_eq (h.of_perm hperm), List.map_map]
    rfl
  · refine ⟨Scope.file functions, fileScope_of_allowedFile h, fun function hmem =>
      ⟨h.check_function hmem, ?_⟩⟩
    intro changed hmem' hchanged
    refine ⟨Scope.file changed, fileScope_of_allowedFile hchanged, ?_⟩
    rw [h.check_function hmem, hchanged.check_function hmem']

/-- A function that calls another one and has a spare variable. -/
def asking : FunctionDef :=
  let name (text : String) : Name := ⟨text, default⟩
  ⟨"main", [], none,
    [.declaration (name "String") "answer" default,
      .assignment (name "answer") (.call (.name (name "ask")) [.string "who?" default] default)
        default], default⟩

/-- The function that is called. -/
def asked : FunctionDef :=
  let name (text : String) : Name := ⟨text, default⟩
  ⟨"ask", [⟨name "String", name "question"⟩], some (name "String"),
    [.expression (.call (.name (name "print")) [.name (name "question")] default) default,
      .result (.call (.name (name "input")) [] default) default], default⟩

/-- The function that is called with another body, which does nothing with the question. -/
def askedInVain : FunctionDef :=
  { asked with body := [.expression (.name ⟨"question", default⟩) default,
    .result (.string "" default) default] }

theorem check_functionwise_asking :
    [asking, asked].Perm [asked, asking] ∧
      (check ([asking, asked].map FunctionDef.toStmt)).result.isOk = true ∧
      (check ([asking, askedInVain].map FunctionDef.toStmt)).result.isOk = true ∧
      check ([asked, asking].map FunctionDef.toStmt) =
        ⟨.ok [asked.withoutSpare.toStmt, asking.withoutSpare.toStmt],
          [⟨.unusedVariable "answer", default⟩]⟩ ∧
      ∃ file changedFile, fileScope [asking, asked] = .ok file ∧
        fileScope [asking, askedInVain] = .ok changedFile ∧
        asking.check changedFile = asking.check file := by
  have hperm : [asking, asked].Perm [asked, asking] := .swap _ _ _
  have hok : (check ([asking, asked].map FunctionDef.toStmt)).result.isOk = true := by
    decide +kernel
  have hvain : (check ([asking, askedInVain].map FunctionDef.toStmt)).result.isOk = true := by
    decide +kernel
  have hwarnings :
      [asked, asking].flatMap FunctionDef.cautions = [⟨.unusedVariable "answer", default⟩] := by
    decide +kernel
  obtain ⟨-, hall⟩ := check_functionwise hperm
  obtain ⟨-, hother, file, hfile, heach⟩ := hall hok
  obtain ⟨changedFile, hchanged, hsame⟩ :=
    (heach asking List.mem_cons_self).2 [asking, askedInVain] List.mem_cons_self hvain
  rw [hwarnings] at hother
  exact ⟨hperm, hok, hvain, hother, file, changedFile, hfile, hchanged, hsame⟩

end FrontEnd
