import FrontEnd.Proofs.Tree.Places

/-!
# What can be written

No statement that is read from tokens counts references (`written_of_parse`), whatever the tokens
are. For each action that reads statements it is enough to know what it gives (`Gives`).
-/

namespace FrontEnd

/-- Statements in which nothing counts references, and none of the functions among them does. -/
structure Stmt.Uncounted (stmts : List Stmt) : Prop where
  written : Stmt.writtenAll stmts = true
  functions : ∀ function : FunctionDef, function.toStmt ∈ stmts →
  Stmt.writtenAll function.body = true

namespace Stmt.Uncounted

variable {stmts stmts' : List Stmt}

theorem nil : Uncounted [] :=
  ⟨rfl, by simp⟩

theorem append (h : Uncounted stmts) (h' : Uncounted stmts') : Uncounted (stmts ++ stmts') where
  written := by rw [Stmt.writtenAll_append, h.written, h'.written, Bool.and_self]
  functions function hmem :=
  (List.mem_append.mp hmem).elim (h.functions function) (h'.functions function)

theorem of_append (h : Uncounted (stmts ++ stmts')) : Uncounted stmts ∧ Uncounted stmts' := by
  have hwritten := h.written
  rw [Stmt.writtenAll_append, Bool.and_eq_true] at hwritten
  exact ⟨⟨hwritten.1, fun function hmem => h.functions function (List.mem_append_left _ hmem)⟩,
    ⟨hwritten.2, fun function hmem => h.functions function (List.mem_append_right _ hmem)⟩⟩

theorem singleton {stmt : Stmt} (hwritten : stmt.written = true)
    (hfunction : stmt.toFunctionDef? = none) :
    Uncounted [stmt] := by
  refine ⟨by rw [Stmt.writtenAll, hwritten]; rfl, fun function hmem => ?_⟩
  rw [← List.mem_singleton.mp hmem] at hfunction
  cases hfunction

theorem function {name : String} {parameters : List Parameter} {returnType : Option Name}
    {location : Location} (h : Uncounted stmts) :
    Uncounted [.function name parameters returnType stmts location] := by
  refine ⟨rfl, fun function hmem => ?_⟩
  obtain ⟨rfl, rfl, rfl, rfl, rfl⟩ := Stmt.function.inj (List.mem_singleton.mp hmem)
  exact h.written

end Stmt.Uncounted

namespace Parse

variable {α β : Type}

/-- What an action gives is of some kind, if it gives anything. -/
def Gives (action : Parse α) (post : α → Prop) : Prop :=
  ∀ (cursor : Cursor) (a : α) (after : Cursor), action cursor = .ok a after → post a

namespace Gives

variable {action : Parse α} {next : α → Parse β} {post : α → Prop} {post' : β → Prop}

protected theorem pure {a : α} (h : post a) : Gives (pure a) post := by
  rintro cursor _ _ ⟨⟩
  exact h

protected theorem throw (stop : Stop) : Gives (throw stop : Parse α) post :=
  fun _ _ _ h => by cases h

protected theorem bind (h : Gives action post) (hnext : ∀ a, post a → Gives (next a) post') :
    Gives (action >>= next) post' := by
  intro cursor b after hb
  cases haction : action cursor with
  | error =>
    rw [bind_of_error haction] at hb
    cases hb
  | ok a middle =>
    rw [bind_of_ok haction] at hb
    exact hnext a (h cursor a middle haction) middle b after hb

/-- What comes first does not matter. -/
theorem after (hnext : ∀ a, Gives (next a) post') : Gives (action >>= next) post' :=
  .bind (fun _ _ _ _ => trivial : Gives action fun _ => True) fun a _ => hnext a

protected theorem ite {condition : Prop} [Decidable condition] {other : Parse α}
    (h : Gives action post) (h' : Gives other post) :
    Gives (if condition then action else other) post := by
  split
  · exact h
  · exact h'

end Gives

open Stmt (Uncounted)

section Blocks

variable {statement : Parse Group}

section

variable (h : Gives statement fun group => Uncounted group.toList)
include h

theorem gives_statementsToBrace (rounds : Nat) {before : List Stmt} (hbefore : Uncounted before) :
    Gives (statementsToBrace statement rounds before) Uncounted := by
  induction rounds generalizing before with
  | zero => exact .throw _
  | succ rounds ih =>
    refine .after fun token => .ite (.pure hbefore) (h.bind fun group hgroup => ?_)
    exact ih (hbefore.append hgroup)

theorem gives_block : Gives (block statement) fun found => Uncounted found.1 := by
  refine .after fun brace => .after fun rounds =>
    (gives_statementsToBrace h rounds .nil).bind fun body hbody => ?_
  exact .after fun close => .pure hbody

theorem gives_conditional : Gives (conditional statement) fun stmt => Uncounted [stmt] := by
  refine .after fun word => .after fun condition => (gives_block h).bind fun found hfound => ?_
  exact .after fun location => .pure (.singleton hfound.written rfl)

theorem gives_function : Gives (function statement) fun stmt => Uncounted [stmt] := by
  rw [function_eq]
  refine .after fun word => .after fun name => .after fun list => .after fun type => ?_
  exact (gives_block h).bind fun found hfound => .after fun location => .pure hfound.function

end

end Blocks

theorem gives_expressionStatement : Gives expressionStatement fun stmt => Uncounted [stmt] :=
  .after fun _ => .after fun _ => .after fun _ => .pure (.singleton rfl rfl)

theorem gives_assignment : Gives assignment fun stmt => Uncounted [stmt] :=
  .after fun _ => .after fun _ => .after fun _ => .after fun _ => .after fun _ =>
    .pure (.singleton rfl rfl)

theorem gives_result : Gives result fun stmt => Uncounted [stmt] :=
  .after fun _ => .after fun _ => .after fun _ => .after fun _ => .pure (.singleton rfl rfl)

theorem gives_declaration : Gives declaration fun group => Uncounted group.toList := by
  refine .after fun type => .after fun target => .after fun token => .ite ?_ ?_
  · exact .after fun semicolon => .after fun location => .pure (.singleton rfl rfl)
  · refine .after fun equals => .after fun value => .after fun semicolon =>
      .after fun declared => ?_
    refine .after fun assigned => .pure ?_
    exact .append (.singleton rfl rfl : Uncounted [.declaration _ _ _]) (.singleton rfl rfl)

theorem gives_single {action : Parse Stmt} (h : Gives action fun stmt => Uncounted [stmt]) :
    Gives (do return ({ first := ← action } : Group)) fun group => Uncounted group.toList :=
  h.bind fun _ hstmt => .pure hstmt

theorem gives_statementForm {inner : Parse Group}
    (h : Gives inner fun group => Uncounted group.toList) :
    Gives (statementForm inner) fun group => Uncounted group.toList := by
  have hplain : Gives plainStatement fun group => Uncounted group.toList := by
    refine .after fun second => ?_
    cases second with
    | none => exact gives_single gives_expressionStatement
    | some =>
      exact .ite (gives_single gives_assignment)
        (.ite gives_declaration (gives_single gives_expressionStatement))
  refine .after fun first =>
    .ite (.ite (gives_single gives_result) ?_) (gives_single gives_expressionStatement)
  exact .ite (gives_single (gives_conditional h)) (.ite (gives_single (gives_function h)) hplain)

theorem gives_statement : Gives statement fun group => Uncounted group.toList := by
  refine .after fun bound => ?_
  induction bound with
  | zero => exact .throw _
  | succ bound ih => exact gives_statementForm ih

end Parse

namespace Statements

theorem gives_read : Parse.Gives read fun found =>
    ∀ group ∈ found, Stmt.Uncounted group.toList := by
  have hread : Parse.Gives
      (do if ← Parse.atEnd then return none else return some (← Parse.statement))
      fun found => ∀ group ∈ found, Stmt.Uncounted group.toList := by
    refine .after fun ended =>
      .ite (.pure (by simp)) (Parse.gives_statement.bind fun group hgroup => .pure ?_)
    rintro _ ⟨⟩
    exact hgroup
  intro cursor found after h
  rw [read, Parse.relocating] at h
  split at h
  · cases h
  · exact hread cursor found after h

/-- What a stream yields next counts nothing, and neither does what it has read with it. -/
theorem uncounted_next {statements rest : Statements} (hpending : Stmt.Uncounted statements.pending)
    {result : Except Stop Stmt} (h : statements.next = (some result, rest)) :
    (∀ stmt, result = .ok stmt → Stmt.Uncounted [stmt]) ∧ Stmt.Uncounted rest.pending := by
  have hgroup : ∀ {first : Stmt} {others : List Stmt}, Stmt.Uncounted ([first] ++ others) →
      (∀ stmt, Except.ok first = (.ok stmt : Except Stop Stmt) → Stmt.Uncounted [stmt]) ∧
      Stmt.Uncounted others := by
    refine fun h => ⟨?_, h.of_append.2⟩
    rintro _ ⟨⟩
    exact h.of_append.1
  obtain ⟨cursor, pending, finished⟩ := statements
  cases pending with
  | cons =>
    cases h
    exact hgroup hpending
  | nil =>
    simp only [next] at h
    split at h
    · cases h
    · split at h
      · cases h
      · next group after hread =>
        cases h
        exact hgroup (gives_read _ _ _ hread group rfl)
      · cases h
        exact ⟨fun _ => by simp, .nil⟩

/-- A stream yields nothing that counts references. -/
theorem uncounted_of_mem_take (count : Nat) {statements : Statements}
    (hpending : Stmt.Uncounted statements.pending) {stmt : Stmt}
    (hstmt : .ok stmt ∈ statements.take count) : Stmt.Uncounted [stmt] := by
  induction count generalizing statements with
  | zero => cases hstmt
  | succ count ih =>
    rw [take] at hstmt
    split at hstmt
    · cases hstmt
    · next result rest hnext =>
      obtain ⟨hresult, hrest⟩ := uncounted_next hpending hnext
      rcases List.mem_cons.mp hstmt with hfirst | hlater
      · exact hresult stmt hfirst.symm
      · exact ih hrest hlater

end Statements

/-- **In what is read from tokens nothing counts references.** -/
theorem written_of_parse {items : List Item} {program : Program} (h : parse items = .ok program)
    {function : FunctionDef} (hmem : function.toStmt ∈ program) :
    Stmt.writtenAll function.body = true := by
  have hresults : (Statements.ofItems items).results = program.map .ok := mapM_id_eq_ok h
  have hyielded : .ok function.toStmt ∈ (Statements.ofItems items).results := by
    rw [hresults]
    exact List.mem_map_of_mem hmem
  exact (Statements.uncounted_of_mem_take _ .nil hyielded).functions function
    (List.mem_singleton_self _)

end FrontEnd
