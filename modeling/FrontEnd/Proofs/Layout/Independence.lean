import FrontEnd.Proofs.Layout.Checking
import FrontEnd.Proofs.Layout.Lowering
import FrontEnd.Proofs.Layout.Reading
import FrontEnd.Proofs.Prune.Marks

/-!
# Compiling does not depend on the layout

Two texts with the same tokens, and with blanks, comments and line breaks between them as they
please, are compiled the same (`compile_layoutIndependent`): to the same program but for places, or
to the same error but for its place, with the same warnings but for their places.

Both are compared with what comes of the tokens without places, which are one and the same list.
Reading, checking, the options and lowering make of them what they make of the tokens of either
text, but for places (`Report.Alike`). Only a fault could depend on the layout, by places that are
joined in the wrong order, and no text leads to a fault.
-/

namespace FrontEnd

open Stmt

/-! ### Spare variables -/

mutual

@[simp] theorem Stmt.uses_unplaced (name : String) :
    ∀ stmt : Stmt, stmt.unplaced.uses name = stmt.uses name
  | .conditional condition body _ => by
    rw [unplaced, uses, uses, Expr.names_unplaced, usesFree_unplacedAll name body]
  | .expression .. | .declaration .. | .assignment .. | .result .. | .function .. | .retain ..
      | .release .. => by
    simp [unplaced, uses]

theorem usesFree_unplacedAll (name : String) : ∀ block : List Stmt,
    usesFree name (unplacedAll block) = usesFree name block
  | [] => by rw [unplacedAll]
  | stmt :: block => by
    rw [Stmt.unplacedAll, usesFree, usesFree, Stmt.uses_unplaced name stmt, Stmt.declares_unplaced,
      usesFree_unplacedAll name block]

end

theorem spareBehind_unplaced (spare : String → Bool) (rest : List Stmt) (stmt : Stmt) :
    spareBehind spare (unplacedAll rest) stmt.unplaced = spareBehind spare rest stmt := by
  cases stmt <;> simp only [unplaced, spareBehind, usesFree_unplacedAll]

mutual

theorem Stmt.withoutSpare_unplaced (spare : String → Bool) (rest : List Stmt) : ∀ stmt : Stmt,
    stmt.unplaced.withoutSpare spare (unplacedAll rest) =
      (stmt.withoutSpare spare rest).map unplaced
  | .conditional condition body location => by
    rw [unplaced, withoutSpare, withoutSpare, removeSpare_unplacedAll spare body]
    simp [unplaced]
  | .function name parameters returnType body location => by
    rw [unplaced, withoutSpare, withoutSpare, removeSpare_unplacedAll _ body]
    simp [unplaced]
  | .assignment target value location => by
    rw [unplaced, withoutSpare, withoutSpare]
    -- the place of a call that stays is joined with that of the assignment, which comes to nothing
    -- without places
    change (if spare target.text then _ else _) = List.map _ (if spare target.text then _ else _)
    split
    · rw [ofSpareValue_eq, ofSpareValue_eq, ofBareValue_unplaced]
    · simp [unplaced]
  | .expression .. | .declaration .. | .result .. | .retain .. | .release .. => by
    simp only [unplaced, withoutSpare, usesFree_unplacedAll, Expr.isCall_unplaced]
    first | rfl | (split <;> rfl)

theorem removeSpare_unplacedAll (spare : String → Bool) : ∀ block : List Stmt,
    removeSpare spare (unplacedAll block) = unplacedAll (removeSpare spare block)
  | [] => by rw [unplacedAll, removeSpare, unplacedAll]
  | stmt :: block => by
    rw [Stmt.unplacedAll, removeSpare, removeSpare, spareBehind_unplaced,
      Stmt.withoutSpare_unplaced spare block stmt, removeSpare_unplacedAll _ block]
    simp

end

/-- **No place decides what checking says.** The statements that are kept are those without spare
variables. -/
theorem Program.check_unplaced (program : Program) :
    Program.check program.unplaced =
      (Program.check program).unplaced Error.unplaced Program.unplaced := by
  have hprogram : program.map (moved fun _ => .nowhere) = program.unplaced :=
    List.map_congr_left fun stmt _ => stmt.moved_nowhere
  have hmoved := Direct.check_moved (fun _ => .nowhere) program
  rw [hprogram, ← Ordered.check_eq_direct_check, ← Ordered.check_eq_direct_check] at hmoved
  generalize hreport : program.check = report, hreport' : Program.check program.unplaced =
    report' at hmoved
  cases hmoved with
  | error h => cases h <;> rfl
  | @ok kept kept' warnings =>
    have hkept := eq_removeSpare_of_check (congrArg Report.result hreport)
    have hkept' := eq_removeSpare_of_check (congrArg Report.result hreport')
    rw [Program.unplaced, ← unplacedAll_eq_map, removeSpare_unplacedAll, ← hkept,
      unplacedAll_eq_map] at hkept'
    exact congrArg (Report.mk · _) (congrArg Except.ok hkept')

/-! ### From statements on -/

/-- What compiling makes of the statements of a text, or of what stopped reading them. -/
def Options.finish (options : Options) (outcome : Except Stop Program) : Report Stop Program :=
  match outcome with
  | .error stop => ⟨.error stop, []⟩
  | .ok program =>
    match Program.check program with
    | ⟨.error error, warnings⟩ => ⟨.error (.error error), warnings⟩
    | ⟨.ok checked, warnings⟩ => ⟨options.apply warnings checked, warnings⟩

theorem compile_eq_finish (source : String) (options : Options) :
    compile source options = options.finish (Program.read source) := rfl

/-- A report and the report without places. -/
structure Report.Alike (report other : Report Stop Program) : Prop where
  result : Stop.Alike Program.unplaced report.result other.result
  warnings : report.warnings.map Warning.unplaced = other.warnings

/-- The first warning is an error for what it is about, and not for its place. -/
theorem Options.alike_apply (options : Options) (warnings : List Warning) (checked : Program) :
    Stop.Alike Program.unplaced (options.apply warnings checked)
      (options.apply (warnings.map Warning.unplaced) checked.unplaced) := by
  have hkept : Stop.Alike Program.unplaced
      (.ok (if options.lowerRefcounts then Refcount.lower checked else checked))
      (.ok (if options.lowerRefcounts then Refcount.lower
        checked.unplaced else checked.unplaced)) := by
    rw [Refcount.lower_unplaced, ← apply_ite Program.unplaced]
    exact .ok _
  unfold apply
  cases options.denyWarnings with
  | false => exact hkept
  | true =>
    cases warnings with
    | nil => exact hkept
    | cons => exact .error rfl

theorem Options.alike_finish (options : Options) {outcome other : Except Stop Program}
    (h : Stop.Alike Program.unplaced outcome other) :
    (options.finish outcome).Alike (options.finish other) := by
  cases h with
  | error h => exact ⟨.error h, rfl⟩
  | ok program =>
    unfold finish
    simp only [Program.check_unplaced]
    obtain ⟨result, warnings⟩ := Program.check program
    cases result with
    | error error => exact ⟨.error (congrArg Stop.error error.unplaced_unplaced), rfl⟩
    | ok checked => exact ⟨options.alike_apply warnings checked, rfl⟩

/-! ### Two texts -/

/-- Two outcomes that are alike to a third one are both values or both errors, and the same but for
places. -/
theorem Stop.Alike.same {α : Type} {value : α → α} {first second other : Except Stop α}
    (h : Stop.Alike value first other) (h' : Stop.Alike value second other) :
    (∃ result result', first = .ok result ∧ second = .ok result' ∧ value result = value result') ∨
      ∃ stop stop' : Stop, first = .error stop ∧ second = .error stop' ∧
      stop.unplaced = stop'.unplaced := by
  cases h with
  | ok result =>
    generalize hother : Except.ok (value result) = found at h'
    cases h' with
    | ok result' => exact .inl ⟨result, result', rfl, rfl, Except.ok.inj hother⟩
    | error => cases hother
  | @error stop common hstop =>
    cases h' with
    | error hstop' => exact .inr ⟨_, _, rfl, rfl, hstop.symm.trans hstop'⟩

theorem unplaced_eq_of_same {tokens others : List Token}
    (h : tokens.map (fun token => (token.kind, token.value)) = others.map fun token =>
      (token.kind, token.value)) :
    tokens.map Token.unplaced = others.map Token.unplaced := by
  have hmap := congrArg
    (List.map fun entry : Token.Kind × String => Token.mk entry.1 entry.2 .nowhere) h
  rwa [List.map_map, List.map_map] at hmap

/-- **Compiling does not depend on the layout.** Whatever stands between the tokens of two texts, if
the tokens are the same by kind and text, the texts are compiled the same but for places. -/
theorem compile_layoutIndependent (options : Options) {source other : String}
    {tokens others : List Token} (hsource : tokenize source = tokens.map .ok)
    (hother : tokenize other = others.map .ok)
    (hsame : tokens.map (fun token => (token.kind, token.value)) =
      others.map fun token => (token.kind, token.value)) :
    ((∃ program program', (compile source options).result = .ok program ∧
        (compile other options).result = .ok program' ∧ program.unplaced = program'.unplaced) ∨
      ∃ error error', (compile source options).result = .error (.error error) ∧
        (compile other options).result = .error (.error error') ∧
        error.unplaced = error'.unplaced) ∧
      (compile source options).warnings.map Warning.unplaced =
        (compile other options).warnings.map Warning.unplaced := by
  have hunplaced := unplaced_eq_of_same hsame
  -- what comes of the tokens without places stands between the two
  have hfirst : (compile source options).Alike
      (options.finish (Program.ofTokens (tokens.map Token.unplaced))) := by
    rw [compile_eq_finish, Program.read_of_tokenize hsource]
    exact options.alike_finish (Program.ofTokens_unplaced (hsource ▸ lexed_tokenize source))
  have hsecond :
      (compile other options).Alike
        (options.finish (Program.ofTokens (tokens.map Token.unplaced))) := by
    rw [compile_eq_finish, Program.read_of_tokenize hother, hunplaced]
    exact options.alike_finish (Program.ofTokens_unplaced (hother ▸ lexed_tokenize other))
  refine ⟨?_, hfirst.warnings.trans hsecond.warnings.symm⟩
  rcases hfirst.result.same hsecond.result with hok | ⟨stop, stop', hstop, hstop', hlike⟩
  · exact .inl hok
  · cases stop with
    | fault fault => exact absurd hstop (compile_ne_fault source options fault)
    | error error =>
      cases stop' with
      | fault fault => exact absurd hstop' (compile_ne_fault other options fault)
      | error error' => exact .inr ⟨error, error', hstop, hstop', Stop.error.inj hlike⟩

/-- An answer that nothing reads, in one line. -/
def crowdedAnswer : String :=
  "function main()\x7bString s=input();\x7d"

/-- The same on many lines and with comments. The call is on another line than the assignment that
it is left of. -/
def scatteredAnswer : String :=
  "function main() \x7b // asks\n\tString s = /* a\nline */ input( )\n;\x7d"

theorem compile_layoutIndependent_scatteredAnswer :
    (compile crowdedAnswer {}).warnings = [⟨.unusedVariable "s", ⟨1, 16, some 24⟩⟩] ∧
      (compile scatteredAnswer {}).warnings = [⟨.unusedVariable "s", ⟨2, 4, some 12⟩⟩] ∧
      ∃ program program', (compile crowdedAnswer {}).result = .ok program ∧
        (compile scatteredAnswer {}).result = .ok program' ∧
        program.unplaced = program'.unplaced := by
  have hcrowded : (Lexer.ofSource crowdedAnswer).itemsWithin 70 = tokenize crowdedAnswer :=
    Lexer.itemsWithin_eq (by decide +kernel)
  have hscattered : (Lexer.ofSource scatteredAnswer).itemsWithin 70 = tokenize scatteredAnswer :=
    Lexer.itemsWithin_eq (by decide +kernel)
  have hcompiled : (compile crowdedAnswer {}).warnings = [⟨.unusedVariable "s", ⟨1, 16, some 24⟩⟩] ∧
      (compile crowdedAnswer {}).result.isOk = true := by
    rw [compile, Program.read, Program.tokens, ← hcrowded]
    decide +kernel
  have hwarnings :
      (compile scatteredAnswer {}).warnings = [⟨.unusedVariable "s", ⟨2, 4, some 12⟩⟩] := by
    rw [compile, Program.read, Program.tokens, ← hscattered]
    decide +kernel
  have htokens : tokenize crowdedAnswer =
      (((Lexer.ofSource crowdedAnswer).itemsWithin 70).filterMap Except.toOption).map .ok := by
    rw [← hcrowded]
    decide +kernel
  have htokens' : tokenize scatteredAnswer =
      (((Lexer.ofSource scatteredAnswer).itemsWithin 70).filterMap Except.toOption).map .ok := by
    rw [← hscattered]
    decide +kernel
  obtain ⟨hcases, -⟩ := compile_layoutIndependent {} htokens htokens' (by decide +kernel)
  refine ⟨hcompiled.1, hwarnings, hcases.resolve_right ?_⟩
  rintro ⟨error, -, herror, -⟩
  have haccepted := hcompiled.2
  rw [herror] at haccepted
  cases haccepted

end FrontEnd
