import FrontEnd.Proofs.Prune.Allowed
import FrontEnd.Proofs.Refcount.Allowed
import FrontEnd.Proofs.Refcount.Behaviour

/-!
# Checking a program again

A program that was checked can be checked again when its reference counts are explicit
(`check_lower`). What is left of it after the check keeps the rules (`allowedFile_checked`), and so
does its lowered form (`allowedFile_lowered`). Both have the functions of the program with other
bodies, so the names of the file stand for what they stood for, and it is enough to look at the
bodies one by one (`AllowedFile.rebodied`).
-/

namespace FrontEnd

open List Scope

open FunctionDef (toStmt)

variable {block : List Stmt} {name : String}

theorem exists_mem_of_forall₂ {α β : Type} {R : α → β → Prop} {xs : List α} {ys : List β}
    (h : Forall₂ R xs ys) {y : β} (hy : y ∈ ys) : ∃ x ∈ xs, R x y := by
  induction h with
  | nil => cases hy
  | @cons x z xs ys hfirst _ ih =>
    rcases mem_cons.mp hy with rfl | hy
    · exact ⟨x, mem_cons_self, hfirst⟩
    · obtain ⟨found, hfound, hR⟩ := ih hy
      exact ⟨found, mem_cons_of_mem _ hfound, hR⟩

/-! ### The end of a body -/

theorem endsWithResult_append {rest : List Stmt} (h : endsWithResult rest = true) :
    endsWithResult (block ++ rest) = true := by
  cases rest with
  | nil => cases h
  | cons =>
    rw [endsWithResult, getLast?_append_cons]
    exact h

theorem endsWithResult_cons {stmt : Stmt} (h : endsWithResult (stmt :: block) = true) :
    (block = [] ∧ ∃ value location, stmt = .result value location) ∨
      endsWithResult block = true := by
  cases block with
  | cons => exact .inr (by rwa [endsWithResult, getLast?_cons_cons] at h)
  | nil =>
    cases stmt with
    | result value location => exact .inl ⟨rfl, value, location, rfl⟩
    | expression | declaration | assignment | conditional | function | retain | release => cases h

/-- What is left of a body without spare variables ends its function if the body does. -/
theorem endsWithResult_removeSpare {spare : String → Bool} (h : endsWithResult block = true) :
    endsWithResult (removeSpare spare block) = true := by
  induction block generalizing spare with
  | nil => cases h
  | cons stmt block ih =>
    rw [removeSpare]
    rcases endsWithResult_cons h with ⟨rfl, value, location, rfl⟩ | hrest
    · rw [Stmt.withoutSpare, removeSpare]
      · rfl
      all_goals simp
    · exact endsWithResult_append (ih hrest)

namespace Refcount

/-- The lowered form of a body ends its function if the body does. -/
theorem Lower.endsWithResult_block {block : List Stmt} (previous : Option Stmt) {state : Lowering}
    (h : endsWithResult block = true) :
    endsWithResult (Lower.block previous block state).1 = true := by
  induction block generalizing previous state with
  | nil => cases h
  | cons stmt block ih =>
    rw [block_cons_eq]
    rcases endsWithResult_cons h with ⟨rfl, value, location, rfl⟩ | hrest
    · rw [Lower.block, Lower.statement]
      show endsWithResult ((result value location state).1 ++ []) = true
      rw [append_nil]
      rcases value.name_or_ne with ⟨name, rfl⟩ | hname
      · exact endsWithResult_append rfl
      · rw [result_of_ne_name hname, resultValue_eq hname]
        split <;> exact endsWithResult_append rfl
    · exact endsWithResult_append (ih (some stmt) hrest)

end Refcount

namespace Execution

open Refcount Direct

/-! ### Functions with other bodies -/

section Files

variable {functions others : List FunctionDef} {own : List String}

theorem file_rebodied (h : Forall₂ (fun function other : FunctionDef =>
    ∃ body, other = { function with body := body }) functions others) :
    file others = file functions := by
  have htable : others.map (fun function => (function.name, function.declared)) =
      functions.map fun function => (function.name, function.declared) := by
    induction h with
    | nil => rfl
    | cons hfirst _ ih =>
      obtain ⟨body, rfl⟩ := hfirst
      rw [map_cons, map_cons, ih]
      rfl
  rw [file, file, htable]

/-- **Other bodies for the functions of a file.** The rules still hold if each of the new bodies
keeps them. -/
theorem AllowedFile.rebodied (h : AllowedFile functions)
    (hothers : Forall₂ (fun function other : FunctionDef =>
      ∃ body, other = { function with body := body } ∧ (function ∈ functions →
          (∃ after, AllowedAll (globals functions) function.signature.returns body
            (startOf function) after) ∧
          (endsWithResult function.body = true → endsWithResult body = true))) functions others) :
    AllowedFile others := by
  have hfile := file_rebodied (hothers.imp fun _ _ ⟨body, hother, _⟩ => ⟨body, hother⟩)
  have hglobals : globals others = globals functions := by rw [globals, hfile]
  have hnames : others.map (·.name) = functions.map (·.name) := by
    rw [← forall₂_eq_eq_eq, forall₂_map_left_iff, forall₂_map_right_iff]
    refine (hothers.imp ?_).flip
    rintro function _ ⟨body, rfl, -⟩
    rfl
  -- each of the new functions comes from one of the file, so it has a head of the file
  have hfrom := fun other hother => exists_mem_of_forall₂ hothers (y := other) hother
  refine ⟨fun other hother => ?_, hnames ▸ h.nodup, ?_, fun other hother => ?_⟩
  · obtain ⟨function, hmem, body, rfl, -⟩ := hfrom other hother
    obtain ⟨hfree, hmain, hdistinct, hparameters, hreturn⟩ := h.wellFormed function hmem
    exact ⟨hfree, hmain, hdistinct, hparameters, hreturn⟩
  · obtain ⟨function, hmem, hname⟩ := h.main
    have hmain : function.name ∈ others.map (·.name) := hnames ▸ mem_map_of_mem hmem
    obtain ⟨other, hother, heq⟩ := mem_map.mp hmain
    exact ⟨other, hother, heq.trans hname⟩
  · obtain ⟨function, hmem, body, rfl, hbody⟩ := hfrom other hother
    obtain ⟨hallowed, hends⟩ := hbody hmem
    exact ⟨hglobals ▸ hallowed, fun hreturns => hends ((h.each function hmem).ends hreturns),
      hglobals ▸ (h.each function hmem).free⟩

/-- What a check keeps of a file keeps the rules. -/
theorem allowedFile_checked {checked : List FunctionDef} (h : CheckedFile functions checked) :
    AllowedFile checked := by
  have hallowed := allowedFile_of_checkedFile h
  refine hallowed.rebodied (h.each.imp fun function output hchecked => ?_)
  obtain ⟨inner, -, heq⟩ := hchecked.body
  refine ⟨output.body, by rw [heq], fun hmem => ?_⟩
  obtain ⟨after, hbody⟩ := (hallowed.each function hmem).body
  have hspare := isSpare_self (startOf function)
  rw [hchecked.body_eq (h.wellFormed function hmem), ← hspare]
  obtain ⟨after', last, hkept, -⟩ := allowedAll_removeSpare
    (fun name hname => Bool.noConfusion (hname.symm.trans (congrFun hspare name)))
    (.self (startOf function)) hbody
  exact ⟨⟨after', hkept⟩, endsWithResult_removeSpare⟩

/-! ### Lowered files -/

/-- No name of a temporary is built in. -/
theorem lookup_builtin_numbered (number : Nat) :
    builtin.own.table.lookup (TempNames.numbered number) = none := by
  have hfirst : (TempNames.numbered number).toList.head? = some 't' := by
    rw [TempNames.numbered]
    simp only [String.toList_append, head?_append]
    rfl
  have hnames : ∀ entry ∈ builtin.own.table, entry.1.toList.head? ≠ some 't' := by
    rw [builtin_own_table]
    decide
  refine lookup_eq_none_iff.mpr fun entry hentry => ?_
  refine bne_iff_ne.mpr fun heq => hnames entry hentry ?_
  rw [← heq, hfirst]

/-- What lowering knows of the names of a file. -/
theorem known_file (hwell : ∀ function ∈ functions, function.WellFormed)
    (hnodup : (functions.map (·.name)).Nodup) (hown : ∀ function ∈ functions, function.name ∈ own) :
    Known (globals functions) (.ofProgram (functions.map toStmt)) own where
  returns name signature hglobal := by
    rw [lookup_ofProgram hnodup]
    rw [globals_eq] at hglobal
    cases hfind : functions.find? (·.name = name) with
    | some =>
      rw [hfind] at hglobal
      cases signature
      cases hglobal
      rw [Option.join_some, Option.map_map]
      rfl
    | none =>
      rw [hfind] at hglobal
      obtain ⟨found, hfound, hentity⟩ := Option.map_eq_some_iff.mp hglobal
      -- only `print` and `input` have a signature
      rcases builtin_cases hfound with ⟨-, heq⟩ | ⟨-, heq⟩ | ⟨rfl, heq⟩ | ⟨rfl, heq⟩
      all_goals
        rw [heq] at hentity
        cases signature
        cases hentity
      · rfl
      · rfl
  basic name type htype := by
    rw [lookup_ofProgram hnodup] at htype
    cases hfind : functions.find? (·.name = name) with
    | some function =>
      rw [hfind, Option.join_some] at htype
      obtain ⟨returned, hreturned, rfl⟩ := Option.map_eq_some_iff.mp htype
      exact (hwell function (mem_of_find?_eq_some hfind)).basicReturn returned hreturned
    | none =>
      rw [hfind] at htype
      -- of what is built in, only `input` gives a value
      by_cases hinput : name = "input"
      · subst hinput
        cases htype
        simp [Ty.basicNames]
      · have hne : (name == "input") = false := by simpa using hinput
        rw [lookup_cons, hne] at htype
        by_cases hprint : name = "print"
        · subst hprint
          cases htype
        · have hne : (name == "print") = false := by simpa using hprint
          rw [lookup_cons, hne] at htype
          cases htype
  types type htype := by
    have hlookup := lookup_builtin_of_basic htype
    rw [globals_eq, find?_eq_none_of_builtin hwell hlookup, hlookup]
    rfl
  free number hnumber := by
    have hfind : functions.find? (·.name = TempNames.numbered number) = none := by
      refine find?_eq_none.mpr fun function hmem hname => hnumber ?_
      rw [← of_decide_eq_true hname]
      exact hown function hmem
    rw [globals_eq, hfind, lookup_builtin_numbered]
    rfl

/-- What lowering knows of the functions is what the check knew. -/
theorem known_checked {checked : List FunctionDef} (h : CheckedFile functions checked) :
    Known (globals functions) (.ofProgram (checked.map toStmt))
      (Stmt.namesOfAll (checked.map toStmt)) := by
  have hfile : file checked = file functions := by
    refine file_rebodied (h.each.imp fun function output hchecked => ?_)
    obtain ⟨inner, -, rfl⟩ := hchecked.body
    exact ⟨_, rfl⟩
  have hallowed := allowedFile_checked h
  rw [globals, ← hfile]
  exact known_file hallowed.wellFormed hallowed.nodup fun function hmem =>
    names_subset_namesOfAll hmem (by simp [toStmt, Stmt.names])

/-- **The lowered form of a file that keeps the rules keeps the rules.** -/
theorem allowedFile_lowered {lowered : List FunctionDef} (h : AllowedFile functions)
    (hown : ∀ function ∈ functions, function.toStmt.names ⊆ own)
    (hlowered : Forall₂ (LoweredFrom (.ofProgram (functions.map toStmt)) own) functions lowered) :
    AllowedFile lowered := by
  have hknown := known_file h.wellFormed h.nodup fun function hmem =>
    hown function hmem (by simp [toStmt, Stmt.names])
  refine h.rebodied (hlowered.imp fun function output hfrom => ?_)
  obtain ⟨context, htypes, htaken, rfl⟩ := hfrom
  rw [Context.lowerFunction_eq]
  refine ⟨_, rfl, fun hmem => ⟨?_, fun hends => ?_⟩⟩
  · have hnames := hown function hmem
    have hparameters : ∀ parameter ∈ function.parameters, parameter.name.text ∈ own :=
      fun parameter hparameter => hnames (parameter_mem_names hparameter)
    have hblock := Subset.trans (body_subset_names function) hnames
    obtain ⟨after, hbody⟩ := (h.each function hmem).body
    obtain ⟨after', hlowered, -⟩ := allowed_block hknown none hblock htypes (cons_ne_nil _ _)
      (tracks_start htaken hparameters (length_map _))
      (apart_startOf (h.each function hmem).free) hbody
    -- around the lowered statements there is only counting
    refine ⟨after', (allowedAll_of_counting fun stmt hstmt => ?_).append ?_⟩
    · obtain ⟨v, -, rfl⟩ := mem_map.mp hstmt
      rfl
    · split
      · exact hlowered
      · exact hlowered.append (allowedAll_of_counting (counting_releases _))
  · rw [if_pos hends]
    exact endsWithResult_append (Lower.endsWithResult_block none hends)

end Files

end Execution

/-! ### Programs -/

open Execution Refcount in
/-- **Lowered programs can be checked.** If a program was checked, then what is kept of it can be
checked again after its reference counts were made explicit: temporaries have the types of their
values and have them before they are read, no name of a temporary clashes with another one, and a
function that has to return a value still ends with returning one. -/
theorem check_lower {program checked : Program} (h : program.check.result = .ok checked) :
    ∃ again, (lower checked).check.result = .ok again := by
  rw [Ordered.check_eq_direct_check] at h
  obtain ⟨functions, kept, rfl, rfl, hfile⟩ := Direct.check_eq_ok h
  obtain ⟨lowered, hlower, hfrom⟩ :=
    (Context.ofProgram (kept.map FunctionDef.toStmt)).lower_functions kept
  have hlowered : AllowedFile lowered :=
    allowedFile_lowered (allowedFile_checked hfile) (fun _ => names_subset_namesOfAll) hfrom
  obtain ⟨again, hagain⟩ := check_of_allowedFile hlowered
  refine ⟨again, ?_⟩
  rw [Ordered.check_eq_direct_check, lower, hlower, hagain]

/-- In `nestedAnswers` arguments are moved to temporaries out of a declared variable, a condition
and an assignment in its body. -/
theorem check_lower_nestedAnswers : ∃ checked again,
    Execution.nestedAnswers.check.result = .ok checked ∧
      (Refcount.lower checked).check.result = .ok again := by
  obtain ⟨checked, hchecked, -⟩ :
      ∃ checked, Execution.nestedAnswers.check.result = .ok checked ∧ True :=
    Execution.exists_kept (by decide +kernel)
  obtain ⟨again, hagain⟩ := check_lower hchecked
  exact ⟨checked, again, hchecked, hagain⟩

end FrontEnd
