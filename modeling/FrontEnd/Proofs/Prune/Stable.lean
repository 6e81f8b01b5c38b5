import FrontEnd.Proofs.Refcount.Recheck

/-!
# Checking again what was kept

What a check keeps of a program can be checked again, and then more may go: a variable that was
needed for the value of a spare one may be spare itself when that one is gone. This comes to an end.
A round of checking that warns removes what it warns about, and a round that does not warn keeps
everything (`check_settles`).

The end is reached by counting. Each declaration is either kept or warned about
(`declarationsOfAll_removeSpare`), and there is no expression without an effect in what is kept
(`concern_ne_of_mem_removeSpare`). So from the second round on each warning stands for a declaration
that goes.
-/

namespace FrontEnd

open List

mutual

/-- The number of declarations in a statement. -/
def Stmt.declarations : Stmt → Nat
  | .declaration .. => 1
  | .conditional _ body _ => declarationsOfAll body
  | .function _ _ _ body _ => declarationsOfAll body
  | _ => 0

/-- The number of declarations in a block, and in the bodies in it. -/
def declarationsOfAll : List Stmt → Nat
  | [] => 0
  | stmt :: block => stmt.declarations + declarationsOfAll block

end

/-- The number of warnings about spare variables. -/
def spareCount (warnings : List Warning) : Nat := warnings.countP (·.concern ≠ .noEffect)

@[simp] theorem spareCount_append (warnings others : List Warning) :
    spareCount (warnings ++ others) = spareCount warnings + spareCount others :=
  countP_append

theorem spareCount_pos {warnings : List Warning}
    (h : ∀ warning ∈ warnings, warning.concern ≠ .noEffect) (hne : warnings ≠ []) :
    0 < spareCount warnings := by
  obtain ⟨warning, hmem⟩ := exists_mem_of_ne_nil warnings hne
  exact countP_pos_iff.mpr ⟨warning, hmem, by simpa using h warning hmem⟩

theorem declarationsOfAll_append (front back : List Stmt) :
    declarationsOfAll (front ++ back) = declarationsOfAll front + declarationsOfAll back := by
  induction front with
  | nil => simp [declarationsOfAll]
  | cons stmt front ih => rw [cons_append, declarationsOfAll, ih, declarationsOfAll, Nat.add_assoc]

theorem cautionsOfAll_append (front back : List Stmt) :
    cautionsOfAll (front ++ back) = cautionsOfAll front ++ cautionsOfAll back := by
  induction front with
  | nil => simp [cautionsOfAll]
  | cons stmt front ih => rw [cons_append, cautionsOfAll, ih, cautionsOfAll, append_assoc]

theorem declarationsOfAll_ofSpareValue (value : Expr) (location : Location) :
    declarationsOfAll (Stmt.ofSpareValue value location) = 0 := by
  cases value <;> simp [Stmt.ofSpareValue, declarationsOfAll, Stmt.declarations]

theorem cautionsOfAll_ofSpareValue (value : Expr) (location : Location) :
    cautionsOfAll (Stmt.ofSpareValue value location) = [] := by
  cases value <;> simp [Stmt.ofSpareValue, cautionsOfAll, Stmt.cautions, Expr.isCall]

/-- Warnings about spare variables are no warnings about expressions without an effect. -/
theorem concern_ne_of_mem_spareIn {block : List Stmt} {warning : Warning}
    (h : warning ∈ spareIn block) :
    warning.concern ≠ .noEffect := by
  induction block with
  | nil => cases h
  | cons stmt block ih =>
    rw [spareIn, mem_append] at h
    rcases h with h | h
    · cases stmt <;> simp_all [Stmt.spareWarning]
    · exact ih h

/-! ### What is left -/

mutual

/-- What is left of a statement has no expressions without an effect. -/
theorem Stmt.concern_ne_of_mem_withoutSpare (spare : String → Bool) (rest : List Stmt)
    {warning : Warning} :
    ∀ stmt : Stmt, warning ∈ cautionsOfAll (stmt.withoutSpare spare rest) →
      warning.concern ≠ .noEffect
  | .expression expression location, h => by
    cases hcall : expression.isCall <;> simp [Stmt.withoutSpare, hcall, cautionsOfAll,
      Stmt.cautions] at h
  | .declaration type name location, h => by
    cases huses : usesFree name rest <;> simp [Stmt.withoutSpare, huses, cautionsOfAll,
      Stmt.cautions] at h
  | .assignment target value location, h => by
    rw [Stmt.withoutSpare] at h
    split at h
    · rw [cautionsOfAll_ofSpareValue] at h
      cases h
    · simp [cautionsOfAll, Stmt.cautions] at h
  | .conditional condition body location, h => by
    simp only [Stmt.withoutSpare, cautionsOfAll, Stmt.cautions, append_nil, mem_append] at h
    exact h.elim (concern_ne_of_mem_removeSpare spare body) concern_ne_of_mem_spareIn
  | .function name parameters returnType body location, h => by
    simp only [Stmt.withoutSpare, cautionsOfAll, Stmt.cautions, append_nil, mem_append] at h
    exact h.elim (concern_ne_of_mem_removeSpare _ body) concern_ne_of_mem_spareIn
  | .result .., h | .retain .., h | .release .., h =>
    by simp [Stmt.withoutSpare, cautionsOfAll, Stmt.cautions] at h

theorem concern_ne_of_mem_removeSpare (spare : String → Bool) {warning : Warning} :
    ∀ block : List Stmt,
    warning ∈ cautionsOfAll (removeSpare spare block) → warning.concern ≠ .noEffect
  | [], h => by simp [removeSpare, cautionsOfAll] at h
  | stmt :: block, h => by
    rw [removeSpare, cautionsOfAll_append, mem_append] at h
    exact h.elim (Stmt.concern_ne_of_mem_withoutSpare spare block stmt)
      (concern_ne_of_mem_removeSpare _ block)

end

mutual

/-- Each declaration is kept or warned about. -/
theorem Stmt.declarations_withoutSpare (spare : String → Bool) (rest : List Stmt) : ∀ stmt : Stmt,
    declarationsOfAll (stmt.withoutSpare spare rest) +
      spareCount (stmt.cautions ++ stmt.spareWarning rest) = stmt.declarations
  | .expression expression location => by
    cases hcall : expression.isCall <;> simp [Stmt.withoutSpare, declarationsOfAll,
      Stmt.declarations, Stmt.cautions, Stmt.spareWarning, spareCount, hcall]
  | .declaration type name location => by
    cases huses : usesFree name rest <;> simp [Stmt.withoutSpare, declarationsOfAll,
      Stmt.declarations, Stmt.cautions, Stmt.spareWarning, spareCount, huses]
  | .assignment target value location => by
    cases hspare : spare target.text <;> simp [Stmt.withoutSpare, declarationsOfAll,
      Stmt.declarations, Stmt.cautions, Stmt.spareWarning, spareCount, hspare,
      declarationsOfAll_ofSpareValue]
  | .conditional condition body location => by
    simpa [Stmt.withoutSpare, declarationsOfAll, Stmt.declarations, Stmt.cautions,
      Stmt.spareWarning] using declarationsOfAll_removeSpare spare body
  | .function name parameters returnType body location => by
    simpa [Stmt.withoutSpare, declarationsOfAll, Stmt.declarations, Stmt.cautions,
      Stmt.spareWarning] using declarationsOfAll_removeSpare _ body
  | .result .. | .retain .. | .release .. => by
    simp [Stmt.withoutSpare, declarationsOfAll, Stmt.declarations, Stmt.cautions,
      Stmt.spareWarning, spareCount]

theorem declarationsOfAll_removeSpare (spare : String → Bool) : ∀ block : List Stmt,
    declarationsOfAll (removeSpare spare block) +
      spareCount (cautionsOfAll block ++ spareIn block) =
      declarationsOfAll block
  | [] => by simp [removeSpare, declarationsOfAll, cautionsOfAll, spareIn, spareCount]
  | stmt :: block => by
    have hstmt := Stmt.declarations_withoutSpare spare block stmt
    have hblock := declarationsOfAll_removeSpare (spareBehind spare block stmt) block
    rw [removeSpare, declarationsOfAll_append, declarationsOfAll, cautionsOfAll, spareIn]
    simp only [spareCount_append] at hstmt hblock ⊢
    omega

end

mutual

theorem Stmt.withoutSpare_of_cautions {rest : List Stmt} : ∀ {stmt : Stmt}, stmt.cautions = [] →
    stmt.spareWarning rest = [] →
    stmt.withoutSpare (fun _ => false) rest = [stmt] ∧ spareBehind (fun _ => false) rest stmt =
      fun _ => false
  | .expression expression location, h, _ => by
    cases hcall : expression.isCall
    · simp [Stmt.cautions, hcall] at h
    · simp [Stmt.withoutSpare, hcall, spareBehind]
  | .declaration type name location, _, h => by
    cases huses : usesFree name rest
    · simp [Stmt.spareWarning, huses] at h
    · refine ⟨by simp [Stmt.withoutSpare, huses], ?_⟩
      rw [spareBehind, huses]
      exact Function.update_eq_self name _
  | .assignment target value location, _, _ => by simp [Stmt.withoutSpare, spareBehind]
  | .conditional condition body location, h,
      _ | .function name parameters returnType body location, h, _ => by
    rw [Stmt.cautions, append_eq_nil_iff] at h
    simp [Stmt.withoutSpare, removeSpare_of_cautions h.1 h.2, spareBehind]
  | .result .., _, _ | .retain .., _, _ | .release .., _, _ =>
    by simp [Stmt.withoutSpare, spareBehind]

/-- Without warnings, everything is left. -/
theorem removeSpare_of_cautions :
    ∀ {block : List Stmt}, cautionsOfAll block = [] → spareIn block = [] →
    removeSpare (fun _ => false) block = block
  | [], _, _ => by rw [removeSpare]
  | stmt :: block, hcautions, hspare => by
    rw [cautionsOfAll, append_eq_nil_iff] at hcautions
    rw [spareIn, append_eq_nil_iff] at hspare
    obtain ⟨hkept, hbehind⟩ := Stmt.withoutSpare_of_cautions hcautions.1 hspare.1
    rw [removeSpare, hkept, hbehind, removeSpare_of_cautions hcautions.2 hspare.2, singleton_append]

end

/-! ### Programs -/

theorem spareIn_toStmt (functions : List FunctionDef) :
    spareIn (functions.map FunctionDef.toStmt) = [] := by
  induction functions with
  | nil => rfl
  | cons function functions ih => exact ih

/-- What is left of a program after some rounds of checking. -/
def checkTimes : Nat → Program → Except Error Program
  | 0, program => .ok program
  | rounds + 1, program => program.check.result.bind (checkTimes rounds)

section Checked

variable {program out : Program}

section

variable (h : program.check.result = .ok out)
include h

theorem spareIn_of_check : spareIn program = [] := by
  rw [Ordered.check_eq_direct_check] at h
  obtain ⟨functions, checked, rfl, -, -⟩ := Direct.check_eq_ok h
  exact spareIn_toStmt functions

/-- What a check keeps can be checked. -/
theorem check_of_check : ∃ again, out.check.result = .ok again := by
  rw [Ordered.check_eq_direct_check] at h
  obtain ⟨functions, checked, rfl, rfl, hfile⟩ := Direct.check_eq_ok h
  rw [Ordered.check_eq_direct_check]
  exact Execution.check_of_allowedFile (Execution.allowedFile_checked hfile)

/-- Each declaration of a program is kept or warned about. -/
theorem declarationsOfAll_of_check :
    declarationsOfAll out + spareCount program.check.warnings = declarationsOfAll program := by
  have hcount := declarationsOfAll_removeSpare (fun _ => false) program
  rw [spareIn_of_check h, append_nil] at hcount
  rw [eq_removeSpare_of_check h, check_eq_of_ok h, hcount]

/-- What a check keeps has no expressions without an effect. -/
theorem concern_ne_of_check {warning : Warning}
    (hwarning : warning ∈ out.check.warnings) : warning.concern ≠ .noEffect := by
  obtain ⟨again, hagain⟩ := check_of_check h
  rw [check_eq_of_ok hagain, eq_removeSpare_of_check h] at hwarning
  exact concern_ne_of_mem_removeSpare _ program hwarning

/-- Without warnings, everything is kept. -/
theorem check_eq_self (hwarnings : program.check.warnings = []) :
    program.check = ⟨.ok program, []⟩ := by
  rw [check_eq_of_ok h] at hwarnings ⊢
  have hcautions : cautionsOfAll program = [] := hwarnings
  rw [removeSpare_of_cautions hcautions (spareIn_of_check h), hcautions]

end

/-- **Rounds without expressions that have no effect.** Each of them changes nothing or removes a
declaration, so there are no more of them than declarations before nothing changes. -/
theorem exists_checkTimes (bound : Nat) {program out : Program} (h : program.check.result = .ok out)
    (hspare : ∀ warning ∈ program.check.warnings, warning.concern ≠ .noEffect)
    (hbound : declarationsOfAll program ≤ bound) :
    ∃ rounds ≤ bound, ∃ stable, checkTimes rounds program = .ok stable ∧
      stable.check = ⟨.ok stable, []⟩ := by
  induction bound generalizing program out with
  | zero =>
    have hcount := declarationsOfAll_of_check h
    have hwarnings : program.check.warnings = [] := by
      by_contra hne
      have hpos := spareCount_pos hspare hne
      omega
    exact ⟨0, Nat.le_refl 0, program, rfl, check_eq_self h hwarnings⟩
  | succ bound ih =>
    -- either nothing changes any more, or there is one declaration less and one round more
    by_cases hwarnings : program.check.warnings = []
    · exact ⟨0, Nat.zero_le _, program, rfl, check_eq_self h hwarnings⟩
    · have hcount := declarationsOfAll_of_check h
      have hpos := spareCount_pos hspare hwarnings
      obtain ⟨again, hagain⟩ := check_of_check h
      obtain ⟨rounds, hrounds, stable, hstable, hcheck⟩ :=
        ih hagain (fun warning => concern_ne_of_check h) (by omega)
      refine ⟨rounds + 1, Nat.succ_le_succ hrounds, stable, ?_, hcheck⟩
      rw [checkTimes, h]
      exact hstable

end Checked

/-- **Checking settles.** What a check keeps can be checked again, and no expression without an
effect is left in it. A check without warnings keeps everything, and only such a check does. If what
is kept is checked again and again, then after one round more than there are declarations at most,
nothing changes any more and there are no warnings. -/
theorem check_settles {program out : Program} (h : program.check.result = .ok out) :
    (∃ again, out.check.result = .ok again) ∧
      (∀ warning ∈ out.check.warnings, warning.concern ≠ .noEffect) ∧
      (out = program ↔ program.check.warnings = []) ∧
      ∃ rounds ≤ declarationsOfAll program + 1, ∃ stable,
        checkTimes rounds program = .ok stable ∧ stable.check = ⟨.ok stable, []⟩ := by
  obtain ⟨again, hagain⟩ := check_of_check h
  have hspare : ∀ warning ∈ out.check.warnings, warning.concern ≠ .noEffect :=
    fun _ => concern_ne_of_check h
  have hcount := declarationsOfAll_of_check h
  refine ⟨⟨again, hagain⟩, hspare, ⟨fun hsame => ?_, fun hwarnings => ?_⟩, ?_⟩
  · -- nothing was removed, so no warning is about a spare variable, and `out` has no others
    subst hsame
    by_contra hne
    have hpos := spareCount_pos hspare hne
    omega
  · have hself := check_eq_self h hwarnings
    rw [hself] at h
    exact (Except.ok.inj h).symm
  · -- the first round removes the expressions without an effect
    obtain ⟨rounds, hrounds, stable, hstable, hcheck⟩ :=
      exists_checkTimes (declarationsOfAll out) hagain hspare (Nat.le_refl _)
    refine ⟨rounds + 1, by omega, stable, ?_, hcheck⟩
    rw [checkTimes, h]
    exact hstable

/-- A program that hands a line on from one variable to the next. The second one is spare, and the
first one is when the second one is gone. -/
def handedOn : Program :=
  let name (text : String) : Name := ⟨text, default⟩
  [.function "main" [] none
    [.declaration (name "String") "line" default,
      .assignment (name "line") (.call (.name (name "input")) [] default) default,
      .declaration (name "String") "copy" default,
      .assignment (name "copy") (.name (name "line")) default]
    default]

theorem check_settles_handedOn : ∃ out, handedOn.check.result = .ok out ∧
    out.check.warnings = [⟨.unusedVariable "line", default⟩] ∧ out ≠ handedOn ∧
      ∃ rounds ≤ 3, ∃ stable, checkTimes rounds handedOn = .ok stable ∧
      stable.check = ⟨.ok stable, []⟩ := by
  obtain ⟨out, hout, hagain⟩ : ∃ out, handedOn.check.result = .ok out ∧
      out.check.warnings = [⟨.unusedVariable "line", default⟩] :=
      Execution.exists_kept (by decide +kernel)
  obtain ⟨-, -, hsame, hrounds⟩ := check_settles hout
  refine ⟨out, hout, hagain, fun heq => ?_, hrounds⟩
  have hwarnings : handedOn.check.warnings ≠ [] := by decide +kernel
  exact hwarnings (hsame.mp heq)

end FrontEnd
