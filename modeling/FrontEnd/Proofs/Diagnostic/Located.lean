import FrontEnd.Proofs.Compile.Faultless
import FrontEnd.Proofs.Diagnostic.Spans
import FrontEnd.Proofs.Layout.Checking

/-!
# Diagnostics are located on code

Checking finds no places of its own: whatever it reports stands at a place of the program, and only
the lack of a `main` function has none (`Program.check_at`). An error is at a name, an expression, a
statement or a function that is looked at right then. A warning about a variable comes later, when
its body is finished, and takes the place that was noted when the variable was declared. None of
this has to be followed step by step, since checking goes along with places that are moved
(`Direct.check_moved`): if the places of the program stay and all others move, reports stay the
same, so they have no other places.

The places of a program that was read are pinned to the code, and so are the errors of reading.
Hence all diagnostics of compiling are (`compile_pinned`).
-/

namespace FrontEnd

section Moved

variable {P : Location → Prop} {move : Location → Location}

mutual

/-- Whatever stands where nothing is moved stays as it is. -/
theorem Expr.Everywhere.moved (hmove : ∀ location, P location → move location = location) :
    ∀ {value : Expr}, value.Everywhere P → value.moved move = value
  | .name _, h => by rw [Expr.moved, Name.moved, hmove _ h]
  | .integer _ _, h | .string _ _, h => by rw [Expr.moved, hmove _ h]
  | .call .., h => by
    rw [Expr.Everywhere] at h
    rw [Expr.moved, h.1.moved hmove, Expr.EverywhereAll.moved hmove h.2.1, hmove _ h.2.2]

theorem Expr.EverywhereAll.moved (hmove : ∀ location, P location → move location = location) :
    ∀ {arguments : List Expr}, Expr.EverywhereAll P arguments →
      Expr.movedAll move arguments = arguments
  | [], _ => by rw [Expr.movedAll]
  | _ :: _, h => by
    rw [Expr.EverywhereAll] at h
    rw [Expr.movedAll, h.1.moved hmove, Expr.EverywhereAll.moved hmove h.2]

end

theorem Name.moved_eq {name : Name} (h : move name.location = name.location) :
    name.moved move = name := by
  rw [Name.moved, h]

mutual

theorem Stmt.Everywhere.moved (hmove : ∀ location, P location → move location = location) :
    ∀ {stmt : Stmt}, stmt.Everywhere P → stmt.moved move = stmt
  | .expression .., h | .result .., h => by rw [Stmt.moved, h.1.moved hmove, hmove _ h.2]
  | .declaration .., h => by rw [Stmt.moved, Name.moved_eq (hmove _ h.1), hmove _ h.2]
  | .assignment .., h =>
    by rw [Stmt.moved, Name.moved_eq (hmove _ h.1), h.2.1.moved hmove, hmove _ h.2.2]
  | .conditional .., h => by
    rw [Stmt.Everywhere] at h
    rw [Stmt.moved, h.1.moved hmove, Stmt.EverywhereAll.moved hmove h.2.1, hmove _ h.2.2]
  | .function _ parameters returnType _ _, h => by
    rw [Stmt.Everywhere] at h
    obtain ⟨hparameters, hreturn, hbody, hlocation⟩ := h
    have hfixed : parameters.map (Parameter.moved move) = parameters := by
      refine (List.map_congr_left fun parameter hmem => ?_).trans parameters.map_id
      obtain ⟨htype, hname⟩ := hparameters parameter hmem
      rw [Parameter.moved, Name.moved_eq (hmove _ htype), Name.moved_eq (hmove _ hname)]
      rfl
    have hkept : returnType.map (Name.moved move) = returnType := by
      cases returnType with
      | none => rfl
      | some type => exact congrArg some (Name.moved_eq (hmove _ (hreturn type rfl)))
    rw [Stmt.moved, hfixed, hkept, Stmt.EverywhereAll.moved hmove hbody, hmove _ hlocation]
  | .retain .., h | .release .., h => by rw [Stmt.moved, hmove _ h]

theorem Stmt.EverywhereAll.moved (hmove : ∀ location, P location → move location = location) :
    ∀ {block : List Stmt}, Stmt.EverywhereAll P block → Stmt.movedAll move block = block
  | [], _ => by rw [Stmt.movedAll]
  | _ :: _, h => by
    rw [Stmt.EverywhereAll] at h
    rw [Stmt.movedAll, h.1.moved hmove, Stmt.EverywhereAll.moved hmove h.2]

end

end Moved

/-- **Checking reports at places of the program.** Only the lack of a `main` function has no
place. -/
theorem Program.check_at {P : Location → Prop} {program : Program}
    (h : ∀ stmt ∈ program, stmt.Everywhere P) :
    (∀ warning ∈ program.check.warnings, P warning.location) ∧
      ∀ error, program.check.result = .error error → error = Cause.noMainFunction.unlocated ∨
      error.At P := by
  classical
  -- everything moves but the places that satisfy the predicate
  let move (location : Location) : Location :=
    if P location then location else { location with line := location.line + 1 }
  have hmove : ∀ location, P location → move location = location :=
    fun location hlocation => if_pos hlocation
  have hstays : ∀ location, move location = location → P location := by
    intro location heq
    by_contra hlocation
    have hline := congrArg Location.line heq
    simp only [move, if_neg hlocation] at hline
    omega
  have hprogram : program.map (Stmt.moved move) = program := by
    refine (List.map_congr_left fun stmt hstmt => ?_).trans program.map_id
    exact (h stmt hstmt).moved hmove
  have hmoved := Direct.check_moved move program
  rw [hprogram, ← Ordered.check_eq_direct_check] at hmoved
  constructor
  · intro warning hwarning
    have hsame := hmoved.warnings
    nth_rewrite 1 [← program.check.warnings.map_id] at hsame
    have hlocation := List.map_inj_left.mp hsame warning hwarning
    exact hstays _ (congrArg Warning.location hlocation).symm
  · intro error herror
    obtain ⟨error', herror', hplace⟩ := hmoved.error_of_error herror
    have hsame : error = error' := Except.error.inj (herror.symm.trans herror')
    -- an error that is the same after moving has no place, or one that is not moved
    cases hplace with
    | noMain => exact .inl rfl
    | located cause location =>
      have hlocation := Option.some.inj (congrArg Error.location hsame)
      exact .inr (cause.at_located (hstays location hlocation.symm))

/-! ### Compiling -/

theorem Options.at_of_apply {P : Location → Prop} {options : Options} {warnings : List Warning}
    {checked : Program} {error : Error} (h : options.apply warnings checked = .error (.error error))
    (hwarnings : ∀ warning ∈ warnings, P warning.location) : error.At P := by
  unfold Options.apply at h
  split at h
  · next warning rest _ =>
    obtain rfl := Stop.error.inj (Except.error.inj h)
    exact Cause.at_located _ (hwarnings warning List.mem_cons_self)
  · cases h

/-- **Every diagnostic is pinned to the code.** All warnings of compiling a text are, and so is an
error, unless there is no `main` function. What is shown for a token or for an error of the lexer
has its carets under just the characters of the token, or under those that are blamed. -/
theorem compile_pinned (source : String) (options : Options) :
    (∀ warning ∈ (compile source options).warnings, warning.location.Pinned source) ∧
      (∀ stop, (compile source options).result = .error stop → ∃ error, stop = .error error ∧
        (error = Cause.noMainFunction.unlocated ∨ error.At (·.Pinned source))) ∧
      ∀ item ∈ tokenize source, ∃ location stretch, item.Marks location stretch ∧
        location.Pinned source ∧ location.Underlines source stretch := by
  have hitems : ∀ item ∈ tokenize source, ∃ location stretch, item.Marks location stretch ∧
      location.Pinned source ∧ location.Underlines source stretch := by
    intro item hitem
    obtain ⟨location, stretch, hmarks, hshows, hsolid⟩ := exists_shows_of_mem hitem
    exact ⟨location, stretch, hmarks, Location.pinned_of_shows hshows hsolid,
      hshows.underlines hsolid⟩
  have hfaultless := compile_ne_fault source options
  rw [← and_assoc]
  refine ⟨?_, hitems⟩
  -- each stage is over before the next one starts, so an error is one of reading, of checking or of
  -- the options
  unfold compile at hfaultless ⊢
  cases hread : Program.read source with
  | error stop =>
    simp only [hread] at hfaultless ⊢
    refine ⟨List.forall_mem_nil _, fun other hother => ?_⟩
    obtain rfl := Except.error.inj hother
    cases stop with
    | error error => exact ⟨error, rfl, .inr (Program.pinned_of_read hread)⟩
    | fault fault => exact absurd rfl (hfaultless fault)
  | ok program =>
    obtain ⟨hwarnings, herrors⟩ := Program.check_at (Program.everywhere_of_read hread)
    simp only [hread] at hfaultless ⊢
    cases hcheck : program.check with
    | mk result =>
      rw [hcheck] at hwarnings herrors
      simp only [hcheck] at hfaultless
      cases result with
      | error error =>
        refine ⟨hwarnings, fun stop hstop => ?_⟩
        obtain rfl := Except.error.inj hstop
        exact ⟨error, rfl, herrors error rfl⟩
      | ok =>
        refine ⟨hwarnings, fun stop hstop => ?_⟩
        cases stop with
        | error error => exact ⟨error, rfl, .inr (Options.at_of_apply hstop hwarnings)⟩
        | fault fault => exact absurd hstop (hfaultless fault)

/-- A program with tabs and carriage returns, a statement that does nothing and a name that is not
declared. -/
def tabbedCall : String :=
  "function main() \x7b\r\n\t1;\r\n\tprint(line);\r\n\x7d\r\n"

theorem compile_pinned_tabbedCall :
    (compile tabbedCall {}).warnings = [⟨.noEffect, ⟨2, 4, some 6⟩⟩] ∧
      (compile tabbedCall {}).result =
        .error (.error ((Cause.variableNotDeclared "line").located ⟨3, 10, some 14⟩)) ∧
      Location.Pinned ⟨2, 4, some 6⟩ tabbedCall ∧ Location.Pinned ⟨3, 10, some 14⟩ tabbedCall ∧
      Location.rows ⟨3, 10, some 14⟩ (Location.lineIn ⟨3, 10, some 14⟩ tabbedCall) =
        ("print(line);".toList, "      ^^^^".toList) := by
  have hwithin : (Lexer.ofSource tabbedCall).itemsWithin 50 = tokenize tabbedCall :=
    Lexer.itemsWithin_eq (by decide +kernel)
  have hwarnings : (compile tabbedCall {}).warnings = [⟨.noEffect, ⟨2, 4, some 6⟩⟩] := by
    rw [compile, Program.read, Program.tokens, ← hwithin]
    decide +kernel
  have hresult : (compile tabbedCall {}).result =
      .error (.error ((Cause.variableNotDeclared "line").located ⟨3, 10, some 14⟩)) := by
    have hrun : (compile tabbedCall {}).result.map (fun _ => ()) =
        .error (.error ((Cause.variableNotDeclared "line").located ⟨3, 10, some 14⟩)) := by
      rw [compile, Program.read, Program.tokens, ← hwithin]
      decide +kernel
    cases hcase : (compile tabbedCall {}).result with
    | error =>
      rw [hcase] at hrun
      rw [Except.error.inj hrun]
    | ok =>
      rw [hcase] at hrun
      cases hrun
  obtain ⟨hpinned, herror, -⟩ := compile_pinned tabbedCall {}
  refine ⟨hwarnings, hresult, ?_, ?_, by decide +kernel⟩
  · rw [hwarnings] at hpinned
    exact hpinned _ (List.mem_singleton.mpr rfl)
  · obtain ⟨error, heq, hcases⟩ := herror _ hresult
    obtain rfl := Stop.error.inj heq
    rcases hcases with hnone | ⟨location, hlocation, hpinned⟩
    · cases hnone
    · obtain rfl := Option.some.inj hlocation
      exact hpinned

end FrontEnd
