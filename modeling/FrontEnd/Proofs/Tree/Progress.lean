import FrontEnd.Proofs.Tree.Concatenation

/-!
# Reading makes progress

Nothing in reading a program gets shorter by its form: an expression is read inside of a list inside
of an expression, and the loops look at a token before they know whether to go on. What gets shorter
is what is left to read, tokens that were looked at and items that were not pulled together
(`Cursor.size`).

* Whatever reads a part of a program takes a token if it succeeds, and never gives one back
  (`Reads`).
* A round of a loop takes an item or is the last one (`Loops`), so that the loop ends. The bounds of
  the loops play no role in this: a loop is where its rounds lead to (`Rounds`).
* Inner expressions and statements are read in front of fewer items than those around them
  (`Recurses`). So there is one way only to read expressions, given how to read the expressions
  inside of them, and the same holds for statements.

A stream of statements then has an end, with no more statements in front of it than there are tokens
(`Statements.exists_answers`).
-/

namespace FrontEnd

open Parse

/-! ### Loops -/

section Loops

variable {σ ρ : Type} {step : σ → σ ⊕ ρ} {size : σ → Nat} {loop : σ → ρ}

/-- Where the rounds of a loop lead to. A round goes on from another state, or has a result. -/
inductive Rounds (step : σ → σ ⊕ ρ) : σ → ρ → Prop
  | last {state : σ} {result : ρ} (round : step state = .inr result) : Rounds step state result
  | again {state next : σ} {result : ρ} (round : step state = .inl next)
      (more : Rounds step next result) :
      Rounds step state result

/-- A loop that comes to an end: each round leaves less of something or is the last one, and the
loop gives what its rounds lead to. -/
structure Loops (step : σ → σ ⊕ ρ) (size : σ → Nat) (loop : σ → ρ) : Prop where
  decreases : ∀ {state next}, step state = .inl next → size next < size state
  leads : ∀ state, Rounds step state (loop state)

/-- A loop that goes on as its rounds tell ends, if they leave less and less. -/
theorem Loops.of_eq (hdecreases : ∀ {state next}, step state = .inl next → size next < size state)
    (heq : ∀ state, loop state = Sum.elim loop id (step state)) : Loops step size loop := by
  refine ⟨hdecreases, fun state => ?_⟩
  induction hsize : size state using Nat.strongRecOn generalizing state with
  | ind count ih =>
    rw [heq]
    cases hstep : step state with
    | inr => exact .last hstep
    | inl next => exact .again hstep (ih (size next) (hsize ▸ hdecreases hstep) next rfl)

end Loops

namespace Parse

variable {α β σ : Type} {least : Nat} {measure : Cursor → Nat} {count : α → Nat} {action : Parse α}

/-! ### What a success takes -/

/-- An action that succeeds takes so much, as its result tells. -/
def Takes (measure : Cursor → Nat) (count : α → Nat) (action : Parse α) : Prop :=
  ∀ cursor a after, action cursor = .ok a after → measure after + count a ≤ measure cursor

namespace Takes

protected theorem pure {a : α} (h : count a = 0) : Takes measure count (pure a) := by
  rintro cursor _ _ ⟨⟩
  rw [h, Nat.add_zero]

protected theorem throw (stop : Stop) : Takes measure count (throw stop : Parse α) := by
  rintro cursor _ _ ⟨⟩

/-- What is left to take behind an action that has taken something. -/
theorem bind {next : α → Parse β} {count : β → Nat} (h : Takes measure (fun _ => least) action)
    (hnext : ∀ a, Takes measure (fun b => count b - least) (next a)) :
    Takes measure count (action >>= next) := by
  intro cursor b last hrun
  obtain ⟨a, after, haction, hrest⟩ := ok_of_bind hrun
  have hfirst : measure after + least ≤ measure cursor := h cursor a after haction
  have hlast : measure last + (count b - least) ≤ measure after := hnext a after b last hrest
  omega

protected theorem ite {condition : Prop} [Decidable condition] {yes no : Parse α}
    (hyes : Takes measure count yes) (hno : Takes measure count no) :
    Takes measure count (if condition then yes else no) := by
  split
  · exact hyes
  · exact hno

end Takes

theorem Composed.takesItems (h : Composed least action) :
    Takes Cursor.size (fun _ => least) action :=
  fun cursor _ _ hrun => (h.uniform cursor).consumes hrun

/-- Looking takes no token. -/
theorem Uniform.takesNone {ended : α → Cursor → Prop}
    (h : ∀ cursor, Uniform least ended action cursor) :
    Takes (·.tokens.length) (fun _ => 0) action := by
  intro cursor a after hrun
  obtain ⟨taken, htokens, -⟩ := (h cursor).leaves
  rw [hrun] at htokens
  change after.tokens.length ≤ cursor.tokens.length
  rw [htokens, List.length_append]
  exact Nat.le_add_left _ _

theorem takes_pop : Takes (·.tokens.length) (fun _ => 1) pop := by
  intro cursor token after hrun
  induction cursor using Cursor.nextCases with
  | looked =>
    cases pop_of_ahead.symm.trans hrun
    exact Nat.le_refl _
  | unread =>
    cases hrun
    exact Nat.le_refl _
  | failed => cases hrun
  | ended => cases hrun

/-- **A success takes tokens**, and not only items. -/
theorem Composed.takesTokens (h : Composed least action) :
    Takes (·.tokens.length) (fun _ => least) action := by
  induction h with
  | pure => exact .pure rfl
  | throw stop => exact .throw stop
  | mono _ hle ih =>
    exact fun cursor a after hrun =>
      Nat.le_trans (Nat.add_le_add_left hle _) (ih cursor a after hrun)
  | bind _ _ ih ihrest =>
    exact ih.bind fun a => by simpa only [Nat.add_sub_cancel_left] using ihrest a
  | comingUp => exact Uniform.takesNone uniform_comingUp
  | pop => exact takes_pop
  | peek ended seen => exact Uniform.takesNone (uniform_peek ended seen)
  | second_bind _ _ ihrest => exact (Uniform.takesNone uniform_second).bind ihrest
  | size_bind _ _ ih => exact fun cursor => ih cursor.size cursor

/-! ### Rounds -/

/-- A round of a loop that reads, from a state and a cursor. -/
def step (round : σ → Parse (σ ⊕ α)) (state : σ × Cursor) :
    (σ × Cursor) ⊕ EStateM.Result Stop Cursor α :=
  match round state.1 state.2 with
  | .ok (.inl next) after => .inl (next, after)
  | .ok (.inr result) after => .inr (.ok result after)
  | .error stop after => .inr (.error stop after)

/-- A loop that reads, whose rounds leave fewer and fewer items. -/
def Consumes (round : σ → Parse (σ ⊕ α)) (loop : σ → Parse α) : Prop :=
  Loops (step round) (fun state => state.2.size) fun state => loop state.1 state.2

/-- Rounds that do not take an item are the last ones. -/
def Shrinks (round : σ → Parse (σ ⊕ α)) : Prop :=
  ∀ state, Takes Cursor.size (Sum.elim (fun _ => 1) fun _ => 0) (round state)

theorem Shrinks.consumes {round : σ → Parse (σ ⊕ α)} {loop : σ → Parse α} (h : Shrinks round)
    (heq : ∀ state, loop state = round state >>= Sum.elim loop pure) : Consumes round loop := by
  refine .of_eq (fun {state next} hstep => ?_) fun state => ?_
  · unfold step at hstep
    split at hstep
    · next hrun =>
      cases hstep
      exact h _ _ _ _ hrun
    · cases hstep
    · cases hstep
  · rw [heq, step]
    cases hrun : round state.1 state.2 with
    | error => rw [bind_of_error hrun]; rfl
    | ok result =>
      rw [bind_of_ok hrun]
      cases result <;> rfl

/-- One more call behind an expression. -/
def callRound (arguments : Parse (List Expr × Token)) (callee : Expr) : Parse (Expr ⊕ Expr) := do
  if ← nextIs .operator "(" then
    let (found, close) ← arguments
    return .inl (.call callee found (← span callee.location close.location))
  else
    return .inr callee

theorem consumes_followedBy {arguments : Parse (List Expr × Token)} (h : Composed 1 arguments) :
    Consumes (callRound arguments) (followedBy arguments) := by
  refine Shrinks.consumes (fun callee => ?_) fun callee => ?_
  · refine (composed_nextIs _ _).takesItems.bind fun more => .ite ?_ (.pure rfl)
    exact h.takesItems.bind fun result =>
      (composed_span _ _).takesItems.bind fun location => .pure rfl
  · rw [followedBy_eq h, callRound, bind_assoc]
    refine bind_congr fun more => ?_
    cases more with
    | true => simp only [if_true, bind_assoc, pure_bind, Sum.elim_inl]
    | false => rfl

/-- What stands behind an element of a list: the end of it, or a comma and more. -/
def tailRound (stop : String) (found : List α) : Parse (List α ⊕ List α × Token) := do
  if (← comingUp 1).isOperator stop then
    return .inr (found, ← pop)
  let comma ← expectOperator ","
  let next ← comingUp 1
  if next.isOperator "," then
    fail (Cause.doubleComma.located (← span comma.location next.location))
  if next.isOperator stop then
    return .inr (found, ← pop)
  return .inl found

/-- One more element of a list. -/
def elementRound (stop : String) (element : Parse α) (before : List α) :
    Parse (List α ⊕ List α × Token) := do
  let first ← comingUp 1
  if first.isOperator "," then
    fail (Cause.leadingComma.located first.location)
  tailRound stop (before ++ [← element])

theorem listTail_eq (stop : String) (again : List α → Parse (List α × Token)) (found : List α) :
    listTail stop again found = tailRound stop found >>= Sum.elim again pure := by
  unfold listTail tailRound
  simp only [bind_assoc]
  refine bind_congr fun token => ?_
  split
  · simp only [bind_assoc, pure_bind, Sum.elim_inr]
  · simp only [bind_assoc]
    refine bind_congr fun comma => bind_congr fun next => ?_
    by_cases hcomma : next.isOperator "," = true
    · rw [if_pos hcomma, if_pos hcomma, bind_assoc]
      exact bind_congr fun location => rfl
    · rw [if_neg hcomma, if_neg hcomma]
      split
      · simp only [bind_assoc, pure_bind, Sum.elim_inr]
      · rfl

theorem consumes_elementsFrom {stop : String} {element : Parse α} (h : Composed 0 element) :
    Consumes (elementRound stop element) (elementsFrom stop element) := by
  refine Shrinks.consumes (fun before => ?_) fun before => ?_
  · refine Composed.comingUp.takesItems.bind fun first => .ite (.throw _) ?_
    refine h.takesItems.bind fun a => Composed.comingUp.takesItems.bind fun token => ?_
    refine .ite (Composed.pop.takesItems.bind fun _ => .pure rfl) ?_
    refine (composed_expect _ _).takesItems.bind fun comma =>
      Composed.comingUp.takesItems.bind fun next => ?_
    refine .ite ((composed_span _ _).takesItems.bind fun _ => .throw _) (.ite ?_ (.pure rfl))
    exact Composed.pop.takesItems.bind fun _ => .pure rfl
  · rw [elementsFrom_eq h, elementRound, bind_assoc]
    refine bind_congr fun first => ?_
    by_cases hcomma : first.isOperator "," = true
    · simp only [if_pos hcomma]
      rfl
    · simp only [if_neg hcomma, bind_assoc, listTail_eq]

/-- One more statement of a body. -/
def bodyRound (statement : Parse Group) (before : List Stmt) : Parse (List Stmt ⊕ List Stmt) := do
  if (← comingUp 1).isOperator "\x7d" then
    return .inr before
  else
    let group ← statement
    return .inl (before ++ group.toList)

theorem consumes_bodyFrom {statement : Parse Group} (h : Composed 1 statement) :
    Consumes (bodyRound statement) (bodyFrom statement) := by
  refine Shrinks.consumes (fun before => ?_) fun before => ?_
  · refine Composed.comingUp.takesItems.bind fun token => .ite (.pure rfl) ?_
    exact h.takesItems.bind fun group => .pure rfl
  · rw [bodyFrom_eq h, bodyRound, bind_assoc]
    refine bind_congr fun token => ?_
    split
    · rfl
    · simp only [bind_assoc, pure_bind, Sum.elim_inl]

/-! ### Recursion -/

/-- What an action is, given how to do it further inside: inside it is needed in front of fewer
items only. -/
def Recurses (form : Parse α → Parse α) (action : Parse α) : Prop :=
  ∀ (inner : Parse α)
    (cursor : Cursor), (∀ less : Cursor, less.size < cursor.size → inner less = action less) →
    form inner cursor = action cursor

/-- What an expression is read as, given how to read the expressions inside of it. -/
def expressionForm (inner : Parse Expr) : Parse Expr := do
  followedBy (commaList "(" ")" inner) (← primary)

theorem recurses_expression : Recurses expressionForm expression := by
  intro inner cursor hinner
  rw [expression_eq, expressionForm]
  cases hprimary : primary cursor with
  | error => rw [bind_of_error hprimary, bind_of_error hprimary]
  | ok first after =>
    have hless := (composed_primary.uniform cursor).consumes hprimary
    rw [bind_of_ok hprimary, bind_of_ok hprimary]
    have hsame : SameWithin after.size inner expression := fun less hle => hinner less (by omega)
    exact sameWithin_calls (sameWithin_commaList hsame composed_expression.some)
      composed_argumentList (Nat.le_refl _) (Nat.le_refl _) first after (Nat.le_refl _)

theorem recurses_statement : Recurses statementForm statement := by
  intro inner cursor hinner
  rw [statement_eq]
  by_cases hsize : cursor.size = 0
  · have hended := comingUp_of_size_eq_zero hsize
    exact (bind_of_error hended).trans (bind_of_error hended).symm
  · have hsame : SameWithin (cursor.size - 1) inner statement :=
      fun less hle => hinner less (by omega)
    exact sameWithin_statementForm hsame composed_statement cursor (Nat.le_refl _)

/-! ### Parts of a program -/

/-- The actions that read a part of a program. -/
inductive Reads : {α : Type} → Parse α → Prop
  | name : Reads name
  | primary : Reads primary
  | expression : Reads expression
  | commaList {α : Type} {element : Parse α} (start stop : String) (h : Reads element) :
      Reads (commaList start stop element)
  | parameter : Reads parameter
  | expressionStatement : Reads expressionStatement
  | assignment : Reads assignment
  | declaration : Reads declaration
  | result : Reads result
  | block : Reads (block statement)
  | conditional : Reads (conditional statement)
  | function : Reads (function statement)
  | statement : Reads statement

theorem Reads.composed {action : Parse α} (h : Reads action) : Composed 1 action := by
  induction h with
  | name => exact composed_name
  | primary => exact composed_primary
  | expression => exact composed_expression
  | commaList start stop h ih => exact composed_commaList ih.some
  | parameter => exact composed_parameter
  | expressionStatement => exact composed_valued.mono (Nat.le_succ _)
  | assignment => exact composed_assignment
  | declaration => exact composed_declaration
  | result => exact composed_result
  | block => exact composed_block composed_statement
  | conditional => exact composed_conditional composed_statement
  | function => exact composed_function composed_statement
  | statement => exact composed_statement

/-- **No statement is read as more statements than it takes tokens.** -/
theorem takes_statement : Takes (·.tokens.length) (·.toList.length) statement := by
  have hsingle {action : Parse Stmt} (h : Composed 1 action) :
      Takes (·.tokens.length) (·.toList.length) (do return ({ first := ← action } : Group)) :=
    h.takesTokens.bind fun _ => .pure rfl
  have hexpression :=
    hsingle (composed_valued.mono (Nat.le_succ 1) : Composed 1 expressionStatement)
  have hdeclaration : Takes (·.tokens.length) (·.toList.length) declaration := by
    refine composed_name.takesTokens.bind fun type =>
      composed_name.takesTokens.bind fun target => ?_
    refine Composed.comingUp.takesTokens.bind fun token => .ite ?_ ?_
    · exact Composed.pop.takesTokens.bind fun semicolon =>
        (composed_span _ _).takesTokens.bind fun _ => .pure rfl
    · refine (composed_expect _ _).takesTokens.bind fun equals =>
        composed_expression.takesTokens.bind fun value => ?_
      refine (composed_expect _ _).takesTokens.bind fun semicolon =>
        (composed_span _ _).takesTokens.bind fun _ => ?_
      exact (composed_span _ _).takesTokens.bind fun _ => .pure rfl
  have hplain : Takes (·.tokens.length) (·.toList.length) plainStatement := by
    refine (Uniform.takesNone uniform_second).bind fun other => ?_
    cases other with
    | none => exact hexpression
    | some => exact .ite (hsingle composed_assignment) (.ite hdeclaration hexpression)
  rw [statement_eq]
  refine Composed.comingUp.takesTokens.bind fun first =>
    .ite (.ite (hsingle composed_result) ?_) hexpression
  refine .ite (hsingle (composed_conditional composed_statement)) ?_
  exact .ite (hsingle (composed_function composed_statement)) hplain

end Parse

/-! ### Streams of statements -/

namespace Statements

/-- A round of asking a stream: a statement that was read before, the end, or more statements to
choose from. -/
def round (statements : Statements) : Statements ⊕ (Option (Except Stop Stmt) × Statements) :=
  match statements.pending with
  | stmt :: pending => .inr (some (.ok stmt), { statements with pending := pending })
  | [] =>
    if statements.finished then .inr (none, statements)
    else
      match read statements.cursor with
      | .ok none cursor => .inr (none, { cursor := cursor, finished := true })
      | .ok (some group) cursor => .inl { cursor := cursor, pending := group.toList }
      | .error stop cursor => .inr (some (.error stop), { cursor := cursor, finished := true })

/-- A statement that was read has taken as many tokens as it is read as statements. -/
theorem takes_read {cursor after : Cursor} {group : Parse.Group}
    (h : read cursor = .ok (some group) after) :
    after.tokens.length + group.toList.length ≤ cursor.tokens.length ∧
      after.size < cursor.size := by
  have hrun := ok_of_relocating h
  obtain ⟨ended, middle, hend, hrest⟩ := ok_of_bind hrun
  cases ended with
  | true => cases hrest
  | false =>
    obtain ⟨found, last, hstatement, heq⟩ := ok_of_bind hrest
    cases heq
    have hlook := Parse.Composed.peek true fun _ => false
    have htokens := hlook.takesTokens _ _ _ hend
    have hitems := hlook.takesItems _ _ _ hend
    have hmore := takes_statement _ _ _ hstatement
    have hfewer := composed_statement.takesItems _ _ _ hstatement
    exact ⟨Nat.le_trans hmore htokens, Nat.lt_of_lt_of_le hfewer hitems⟩

theorem loops_next : Loops round (fun statements => statements.cursor.size) next := by
  refine .of_eq (fun {statements other} hround => ?_) fun statements => ?_
  · unfold round at hround
    split at hround
    · cases hround
    split at hround
    · cases hround
    split at hround
    · cases hround
    · next hread =>
      cases hround
      exact (takes_read hread).2
    · cases hround
  · obtain ⟨cursor, pending, finished⟩ := statements
    cases pending with
    | cons => rfl
    | nil =>
      cases finished with
      | true => rfl
      | false =>
        rw [next, round]
        simp only [Bool.false_eq_true, if_false]
        cases hread : read cursor with
        | error => rfl
        | ok result => cases result <;> rfl

/-- Each statement that is yielded is paid for with a token. -/
theorem next_decreases {statements : Statements} {stmt : Stmt}
    (h : statements.next.1 = some (.ok stmt)) :
    statements.next.2.pending.length + statements.next.2.cursor.tokens.length <
      statements.pending.length + statements.cursor.tokens.length := by
  obtain ⟨cursor, pending, finished⟩ := statements
  cases pending with
  | cons => exact Nat.add_lt_add_right (Nat.lt_succ_self _) _
  | nil =>
    cases finished with
    | true => cases h
    | false =>
      simp only [next, Bool.false_eq_true, if_false] at h ⊢
      cases hread : read cursor with
      | error => simp [hread] at h
      | ok result after =>
        cases result with
        | none => simp [hread] at h
        | some group =>
          have hpaid : after.tokens.length + (group.others.length + 1) ≤ cursor.tokens.length :=
            (takes_read hread).1
          change group.others.length + after.tokens.length < 0 + cursor.tokens.length
          omega

/-- **A stream ends**: it yields statements, no more than there are tokens to come, then at most one
stop, and then nothing for ever. -/
theorem exists_answers (statements : Statements) : ∃ (program : Program) (stop : Option Stop),
    program.length ≤ statements.pending.length + statements.cursor.tokens.length ∧
      ∀ n, statements.answer n = (program.map Except.ok ++ stop.toList.map Except.error)[n]? := by
  induction hcount : statements.pending.length + statements.cursor.tokens.length
    using Nat.strongRecOn
    generalizing statements with
  | ind count ih =>
    by_cases hyields : ∃ stmt, statements.next.1 = some (.ok stmt)
    · obtain ⟨stmt, hyields⟩ := hyields
      have hless := next_decreases hyields
      obtain ⟨program, stop, hlength, hanswers⟩ := ih _ (hcount ▸ hless) statements.next.2 rfl
      refine ⟨stmt :: program, stop, by rw [List.length_cons]; omega, fun n => ?_⟩
      cases n with
      | zero => exact hyields
      | succ n => exact hanswers n
    · -- what is yielded in place of a statement is the last thing
      obtain ⟨hpending, hfinished⟩ := (next_cases statements).resolve_left hyields
      have hlast (n : Nat) : statements.answer (n + 1) = none :=
        answer_of_finished hpending hfinished n
      obtain ⟨stop, hstop⟩ : ∃ stop : Option Stop, statements.next.1 = stop.map Except.error := by
        cases hnext : statements.next.1 with
        | none => exact ⟨none, rfl⟩
        | some result =>
          cases result with
          | ok stmt => exact absurd ⟨stmt, hnext⟩ hyields
          | error stop => exact ⟨some stop, rfl⟩
      refine ⟨[], stop, Nat.zero_le _, fun n => ?_⟩
      cases n with
      | zero => cases stop <;> exact hstop
      | succ n => cases stop <;> exact hlast n

end Statements

/-! ### Progress -/

/-- What is left is a rest of the tokens, behind one that was taken if there is a result. -/
theorem Parse.Composed.exists_taken {α : Type} {action : Parse α} (h : Parse.Composed 1 action)
    (cursor : Cursor) :
    ∃ taken, cursor.tokens = taken ++ (cursorOf (action cursor)).tokens ∧
      (cursorOf (action cursor)).size ≤ cursor.size ∧
        ∀ a after, action cursor = .ok a after → taken ≠ [] ∧ after.last = taken.getLast? := by
  obtain ⟨taken, htokens, hlast⟩ := (h.uniform cursor).leaves
  refine ⟨taken, htokens, ?_, fun a after hrun => ?_⟩
  · cases hrun : action cursor with
    | ok => exact Nat.le_of_succ_le ((h.uniform cursor).consumes hrun)
    | error => exact (h.uniform cursor).size_le hrun
  · have htakes : after.tokens.length + 1 ≤ cursor.tokens.length :=
      h.takesTokens cursor a after hrun
    rw [hrun] at htokens hlast
    have hne : taken ≠ [] := by
      rintro rfl
      rw [htokens] at htakes
      exact absurd htakes (Nat.not_succ_le_self _)
    refine ⟨hne, hlast.trans ?_⟩
    rw [List.getLast?_eq_some_getLast hne, Option.some_or]

/-- **Reading makes progress, and so it comes to an end.** Whatever reads a part of a program leaves
a rest of the tokens, and a shorter one if it succeeds. The calls behind an expression, the elements
of a list, the statements of a body and the answers of a stream are read in rounds, each of which
leaves fewer items or is the last one. Expressions and statements are read inside of others in front
of fewer items. And a stream yields no more statements than it has tokens, then at most one stop,
and then nothing for ever. -/
theorem reading_progresses :
    (∀ {α : Type} (action : Parse α), Parse.Reads action → ∀ cursor : Cursor, ∃ taken,
      cursor.tokens = taken ++ (cursorOf (action cursor)).tokens ∧
        (cursorOf (action cursor)).size ≤ cursor.size ∧
          ∀ a after, action cursor = .ok a after → taken ≠ [] ∧ after.last = taken.getLast?) ∧
    Parse.Consumes (callRound argumentList) (followedBy argumentList) ∧
    (∀ {α : Type} (element : Parse α) (stop : String), Parse.Reads element →
      Parse.Consumes (elementRound stop element) (elementsFrom stop element)) ∧
    Parse.Consumes (bodyRound statement) (bodyFrom statement) ∧
    Loops Statements.round (fun statements => statements.cursor.size) Statements.next ∧
    Parse.Recurses expressionForm expression ∧ Parse.Recurses statementForm statement ∧
    ∀ statements : Statements, ∃ (program : Program) (stop : Option Stop),
      program.length ≤ statements.pending.length + statements.cursor.tokens.length ∧
        ∀ n, statements.answer n = (program.map Except.ok ++ stop.toList.map Except.error)[n]? := by
  refine ⟨fun action h => h.composed.exists_taken, consumes_followedBy composed_argumentList,
    fun element stop h =>
    consumes_elementsFrom h.composed.some, consumes_bodyFrom composed_statement,
      Statements.loops_next, recurses_expression, recurses_statement, Statements.exists_answers⟩

/-- The declaration in front of an unfinished call is read and the call is left, by rounds that
end. -/
theorem reading_progresses_declaration :
    (∃ group after,
      statement (.ofItems (initialisedNumber.map .ok ++ unfinishedCall)) = .ok group after ∧
      (Cursor.ofItems (initialisedNumber.map .ok ++ unfinishedCall)).tokens = initialisedNumber ++
        after.tokens ∧ after.last = initialisedNumber.getLast?) ∧
    Parse.Consumes (elementRound ")" statement) (elementsFrom ")" statement) := by
  obtain ⟨htakes, -, hlists, -⟩ := reading_progresses
  refine ⟨?_, hlists statement ")" .statement⟩
  obtain ⟨taken, htokens, -, hok⟩ := htakes statement .statement
    (.ofItems (initialisedNumber.map .ok ++ unfinishedCall))
  refine ⟨_, _, rfl, ?_, (hok _ _ rfl).2.trans ?_⟩
  · rfl
  · obtain rfl : taken = initialisedNumber := List.append_cancel_right (htokens.symm.trans rfl)
    rfl

end FrontEnd
