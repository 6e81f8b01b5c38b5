import FrontEnd.Proofs.Refcount.Calls
import FrontEnd.Proofs.Refcount.Recheck

/-!
# What a check keeps can be lowered

The functions that a check leaves of a text are such that lowering can deal with them
(`suited_checked`). What is left of a body is the body without its spare variables. Its variables
have places of their own because those of the text have, and nothing new is declared
(`placesOfAll_removeSpare`). It is tidy because no expression without effect is kept, and the rules
tell the types of the calls whose values are returned (`tidyAll_removeSpare`).
-/

namespace FrontEnd

/-! ### Places -/

mutual

/-- What is left of a statement declares nothing new. -/
theorem Stmt.places_withoutSpare (spare : String → Bool) (rest : List Stmt) : ∀ stmt : Stmt,
    (Stmt.placesOfAll (stmt.withoutSpare spare rest)).Sublist stmt.places
  | .expression .. | .declaration .. => by
    rw [Stmt.withoutSpare]
    split
    · exact List.Sublist.refl _
    · exact List.nil_sublist _
  | .assignment target value location => by
    rw [Stmt.withoutSpare]
    split
    · rw [Stmt.ofSpareValue_eq, Stmt.ofBareValue]
      split <;> exact List.nil_sublist _
    · exact List.Sublist.refl _
  | .conditional condition body location => by
    have hbody := placesOfAll_removeSpare spare body
    simpa only [Stmt.withoutSpare, Stmt.placesOfAll, Stmt.places, List.append_nil] using hbody
  | .result .. | .function .. | .retain .. | .release .. => by
    simp [Stmt.withoutSpare, Stmt.placesOfAll, Stmt.places]

theorem placesOfAll_removeSpare (spare : String → Bool) : ∀ block : List Stmt,
    (Stmt.placesOfAll (removeSpare spare block)).Sublist (Stmt.placesOfAll block)
  | [] => by rw [removeSpare]
  | stmt :: block => by
    rw [removeSpare, Stmt.placesOfAll_append, Stmt.placesOfAll]
    exact (Stmt.places_withoutSpare spare block stmt).append (placesOfAll_removeSpare _ block)

end

end FrontEnd

namespace FrontEnd.Execution

open Refcount Direct

/-! ### Tidiness -/

section Tidy

variable {types : ReturnTypes} {functions : List FunctionDef} {returns : Option Ty}

theorem tidyAll_append (first second : List Stmt) :
    tidyAll types (first ++ second) = (tidyAll types first && tidyAll types second) := by
  induction first with
  | nil => rfl
  | cons stmt first ih => rw [List.cons_append, tidyAll, tidyAll, ih, Bool.and_assoc]

/-- What lowering knows about the calls of a file is what a check knows about them. -/
def Knows (types : ReturnTypes) (globals : String → Option Entity) : Prop :=
  ∀ (name : String) (signature : Signature), globals name = some (.value signature.toTy) →
    signature.returns.isSome → (types.lookup name).join.isSome

/-- A value that is returned is a name, or its type is known. -/
theorem tidy_result (hknows : Knows types (globals functions)) {env : Env Data} {value : Expr}
    {expected : Ty} (location : Location)
    (h : Usable (globals functions) env value (some (.value expected))) :
    tidy types (.result value location) = true := by
  cases value with
  | name => rfl
  | integer => rfl
  | string => rfl
  | call =>
    obtain ⟨callee, signature, values, hcallee, hsignature, -, -, hreturns⟩ := h.stands
    obtain ⟨name, rfl, -, hglobal⟩ := callee_of_stands basic_of_globals hcallee hsignature
    have hsome : signature.returns.isSome := by
      cases hcase : signature.returns with
      | none => rw [hcase] at hreturns; cases hreturns
      | some => rfl
    exact hknows name.text signature hglobal hsome

mutual

/-- What is left of a statement of a text that keeps the rules is tidy. -/
theorem tidyAll_withoutSpare (hknows : Knows types (globals functions)) (spare : String → Bool)
    (rest : List Stmt) :
    ∀ {stmt : Stmt} {env after : Env Data}, stmt.written = true →
      Allowed (globals functions) returns stmt env after →
    tidyAll types (stmt.withoutSpare spare rest) = true
  | .expression expression location, env, after, _, h => by
    rw [Stmt.withoutSpare]
    split
    · next hcall => simp [tidyAll, tidy, hcall]
    · -- what has no effect is not kept
      rfl
  | .declaration .., env, after, _, h => by
    rw [Stmt.withoutSpare]
    split <;> rfl
  | .assignment target value location, env, after, _, h => by
    rw [Stmt.withoutSpare]
    split
    · rw [Stmt.ofSpareValue_eq, Stmt.ofBareValue]
      split
      · next hcall => simp [tidyAll, tidy, hcall]
      · rfl
    · rfl
  | .conditional condition body location, env, after, hwritten, h => by
    rw [Allowed] at h
    rw [Stmt.written] at hwritten
    obtain ⟨-, inner, hbody, -⟩ := h
    have htidy := tidyAll_removeSpare hknows spare hwritten hbody
    simp [Stmt.withoutSpare, tidyAll, tidy, htidy]
  | .result value location, env, after, _, h => by
    obtain ⟨⟨expected, -, husable⟩, -⟩ := h
    simp [Stmt.withoutSpare, tidyAll, tidy_result hknows location husable]
  | .function .., env, after, _, h => h.elim
  | .retain .., env, after, hwritten, _ | .release .., env, after, hwritten, _ => by cases hwritten

theorem tidyAll_removeSpare (hknows : Knows types (globals functions)) (spare : String → Bool) :
    ∀ {block : List Stmt} {env after : Env Data}, Stmt.writtenAll block = true →
    AllowedAll (globals functions) returns block env after →
    tidyAll types (removeSpare spare block) = true
  | [], _, _, _, _ => by rw [removeSpare]; rfl
  | stmt :: block, env, after, hwritten, h => by
    rw [AllowedAll] at h
    rw [Stmt.writtenAll, Bool.and_eq_true] at hwritten
    obtain ⟨middle, hstmt, hblock⟩ := h
    rw [removeSpare, tidyAll_append, tidyAll_withoutSpare hknows spare block hwritten.1 hstmt,
      tidyAll_removeSpare hknows _ hwritten.2 hblock]
    rfl

end

end Tidy

/-! ### Files -/

section Files

variable {functions checked : List FunctionDef}

/-- The functions that are left of a file return what those of the file return. -/
theorem knows_checked (h : CheckedFile functions checked) :
    Knows (.ofProgram (checked.map FunctionDef.toStmt)) (globals functions) := by
  intro name signature hglobal hreturns
  rwa [← (known_checked h).returns name signature hglobal, Option.isSome_map] at hreturns

/-- What a check leaves of the functions of a text is tidy. -/
theorem tidyAll_checked (h : CheckedFile functions checked)
    (hwritten : ∀ function ∈ functions, Stmt.writtenAll function.body = true) {output : FunctionDef}
    (houtput : output ∈ checked) :
    tidyAll (.ofProgram (checked.map FunctionDef.toStmt)) output.body = true := by
  obtain ⟨function, hfunction, hchecked⟩ := exists_mem_of_forall₂ h.each houtput
  obtain ⟨after, hallowed⟩ := ((allowedFile_of_checkedFile h).each function hfunction).body
  rw [hchecked.body_eq (h.wellFormed function hfunction)]
  exact tidyAll_removeSpare (knows_checked h) _ (hwritten function hfunction) hallowed

/-- **What a check leaves of the functions of a text can be lowered.** -/
theorem suited_checked (h : CheckedFile functions checked)
    (hread : ∀ function ∈ functions, function.places.Nodup ∧ Stmt.writtenAll function.body = true)
    {output : FunctionDef} (houtput : output ∈ checked) :
    Suited (.ofProgram (checked.map FunctionDef.toStmt))
      (Stmt.namesOfAll (checked.map FunctionDef.toStmt)) output := by
  have htidy := tidyAll_checked h (fun function hfunction => (hread function hfunction).2) houtput
  obtain ⟨function, hfunction, hchecked⟩ := exists_mem_of_forall₂ h.each houtput
  have hwell := h.wellFormed function hfunction
  have hplaces := placesOfAll_removeSpare (fun _ => false) function.body
  rw [← hchecked.body_eq hwell] at hplaces
  obtain ⟨inner, -, rfl⟩ := hchecked.body
  exact {
    names := names_subset_namesOfAll houtput
    tidy := htidy
    parameters := hwell.distinct
    places := (hread function hfunction).1.sublist ((List.Sublist.refl _).append hplaces) }

end Files

end FrontEnd.Execution
