import FrontEnd.Proofs.Tree.Bounds

/-!
# Statements begin and end with their own tokens

A statement ends with a semicolon or a brace, so that it is complete when its last token has been
taken. Whatever stands behind it, the statement is the same and nothing of that is pulled
(`Closed`). An expression may go on with another call, so there is always a look at what is behind
it.

A statement takes its first token right after it has looked at it. If then the stream ends too
early, there is a token that was taken last, and it is one of the statement (`Committed`).
-/

namespace FrontEnd

namespace Parse

variable {α β : Type}

/-! ### The last token -/

/-- An action that does the same with more items at the end of the stream, without pulling them. -/
def Closed (action : Parse α) : Prop :=
  ∀ {cursor after : Cursor} {a : α}, action cursor = .ok a after →
    ∀ more, action (cursor.followed more) = .ok a (after.followed more)

/-- An action that has nothing to do with the cursor. -/
inductive Still : Parse α → Prop
  | pure (a : α) : Still (pure a)
  | throw (stop : Stop) : Still (throw stop)

namespace Still

variable {action : Parse α}

theorem composed (h : Still action) : Composed 0 action := by
  cases h with
  | pure a => exact .pure a
  | throw stop => exact .throw stop

theorem closed (h : Still action) : Closed action := by
  intro cursor after a hok more
  cases h <;> cases hok
  rfl

theorem span_bind {first last : Location} {next : Location → Parse α}
    (h : ∀ location, Still (next location)) :
    Still (span first last >>= next) := by
  unfold span
  cases first.between? last with
  | some location => exact h location
  | none => exact .throw _

end Still

/-- An action that takes tokens, and is over with the last of them. -/
structure Ending (action : Parse α) : Prop where
  composed : Composed 1 action
  closed : Closed action

namespace Ending

variable {action : Parse α} {next : α → Parse β}

/-- If an action has come to the end of the stream, nothing is left to be taken behind it. -/
theorem after {least : Nat} (h : Composed least action) (hnext : ∀ a, Ending (next a)) :
    Ending (action >>= next) := by
  refine ⟨h.some.after fun a => (hnext a).composed, fun hok more => ?_⟩
  obtain ⟨a, middle, haction, hlast⟩ := ok_of_bind hok
  have htaken := ((hnext a).composed.uniform middle).consumes hlast
  rcases (h.uniform _).continues haction with hsame | hspent
  · exact (bind_of_ok (hsame more)).trans ((hnext a).closed hlast more)
  · unfold spent at hspent
    omega

/-- Nothing more is read behind an action. -/
theorem before (h : Ending action) (hnext : ∀ a, Still (next a)) : Ending (action >>= next) := by
  refine ⟨h.composed.before fun a => (hnext a).composed, fun hok more => ?_⟩
  obtain ⟨a, middle, haction, hlast⟩ := ok_of_bind hok
  exact (bind_of_ok (h.closed haction more)).trans ((hnext a).closed hlast more)

protected theorem throw (stop : Stop) : Ending (throw stop : Parse α) :=
  ⟨.throw stop, fun hok => by cases hok⟩

protected theorem ite {condition : Prop} [Decidable condition] {yes no : Parse α}
    (hyes : Ending yes)
    (hno : Ending no) : Ending (if condition then yes else no) := by
  split
  · exact hyes
  · exact hno

protected theorem pop : Ending pop := by
  refine ⟨.pop, fun {cursor after a} hok more => ?_⟩
  induction cursor using Cursor.nextCases with
  | looked =>
    rw [pop_of_ahead] at hok
    cases hok
    exact pop_of_ahead
  | unread =>
    cases hok
    rfl
  | failed => cases hok
  | ended => cases hok

end Ending

theorem ending_expect (kind : Token.Kind) (value : Option String) : Ending (expect kind value) := by
  refine .after .comingUp fun token => ?_
  cases value with
  | none => exact .ite (.throw _) .pop
  | some => exact .ite (.throw _) (.ite (.throw _) .pop)

/-! ### The first token -/

/-- An outcome behind which a token has been taken, or an error other than the end of file. -/
def Settled : EStateM.Result Stop Cursor α → Prop
  | .ok _ after => after.last ≠ none
  | .error (.error error) after => error.isEndOfFile = true → after.last ≠ none
  | .error (.fault _) _ => True

/-- Once a token has been taken, there is always a token taken last. -/
theorem Composed.settled {least : Nat} {action : Parse α} (h : Composed least action)
    {cursor : Cursor} (hlast : cursor.last ≠ none) : Settled (action cursor) := by
  have hbehind : cursor = ({ cursor with last := none } : Cursor).behind cursor.last := rfl
  have hsome (after : Cursor) : (after.behind cursor.last).last ≠ none := by
    simp [Cursor.behind, hlast]
  rw [hbehind, (h.uniform _).oblivious]
  cases action { cursor with last := none } with
  | ok a after => exact hsome after
  | error stop after =>
    cases stop with
    | fault => trivial
    | error => exact fun _ => hsome after

/-- An action that takes a token that has been looked at, or fails with an error of its own. -/
structure Committed (action : Parse α) : Prop where
  composed : Composed 1 action
  settled : ∀ cursor : Cursor, cursor.ahead ≠ [] → Settled (action cursor)

namespace Committed

protected theorem bind {action : Parse α} {next : α → Parse β} (h : Committed action)
    (hnext : ∀ a, Composed 0 (next a)) : Committed (action >>= next) := by
  refine ⟨h.composed.before hnext, fun cursor hahead => ?_⟩
  have hfirst := h.settled cursor hahead
  cases haction : action cursor with
  | ok a =>
    rw [haction] at hfirst
    rw [bind_of_ok haction]
    exact (hnext a).settled hfirst
  | error stop =>
    rw [haction] at hfirst
    rw [bind_of_error haction]
    cases stop <;> exact hfirst

theorem comingUp_bind {next : Token → Parse α} (h : ∀ token, Committed (next token)) :
    Committed (comingUp 1 >>= next) := by
  refine ⟨Composed.comingUp.after fun token => (h token).composed, ?_⟩
  rintro ⟨ahead, rest, last⟩ hahead
  cases ahead with
  | nil => exact absurd rfl hahead
  | cons token =>
    rw [bind_of_ok comingUp_of_ahead]
    exact (h token).settled _ hahead

/-- An error that is not the end of the file. -/
protected theorem fail {cause : Cause} {location : Location} (h : cause ≠ .unexpectedEndOfFile) :
    Committed (fail (cause.located location) : Parse α) := by
  refine ⟨.throw _, fun cursor _ hended => ?_⟩
  exact absurd (by simpa [Error.isEndOfFile, Cause.located] using hended) h

protected theorem ite {condition : Prop} [Decidable condition] {yes no : Parse α}
    (hyes : Committed yes) (hno : Committed no) : Committed (if condition then yes else no) := by
  split
  · exact hyes
  · exact hno

protected theorem pop : Committed pop := by
  refine ⟨.pop, ?_⟩
  rintro ⟨ahead, rest, last⟩ hahead
  cases ahead with
  | nil => exact absurd rfl hahead
  | cons token =>
    rw [pop_of_ahead]
    exact Option.some_ne_none token

end Committed

theorem committed_expect (kind : Token.Kind) (value : Option String) :
    Committed (expect kind value) := by
  refine .comingUp_bind fun token => ?_
  cases value with
  | none => exact .ite (.fail (by simp)) .pop
  | some => exact .ite (.fail (by simp)) (.ite (.fail (by simp)) .pop)

theorem committed_name : Committed name :=
  (committed_expect _ _).bind fun _ => .ite (.throw_bind _) (.pure _)

theorem committed_expression : Committed expression := by
  rw [expression_eq]
  refine Committed.bind (.comingUp_bind fun token => ?_) fun first =>
    composed_followedBy composed_argumentList first
  cases token.kind with
  | name => exact committed_name.bind fun _ => .pure _
  | integer => exact Committed.pop.bind fun _ => .pure _
  | string =>
    refine Committed.pop.bind fun token => ?_
    cases unquote? token.value with
    | some => exact .pure _
    | none => exact .throw _
  | operator => exact .fail (by simp)

/-! ### Statements -/

/-- Where a token has been looked at, it stays so when the one behind it is looked at. -/
theorem second_cases {cursor : Cursor} (h : cursor.ahead ≠ []) :
    (∃ other after, second cursor = .ok other after ∧ after.ahead ≠ []) ∨
      ∃ error after, second cursor = .error (.error error) after ∧ error.isEndOfFile = false := by
  obtain ⟨ahead, rest, last⟩ := cursor
  cases ahead with
  | nil => exact absurd rfl h
  | cons token ahead =>
    cases ahead with
    | cons other => exact .inl ⟨some other, _, second_of_ahead, h⟩
    | nil =>
      cases rest with
      | nil => exact .inl ⟨none, _, rfl, h⟩
      | cons item rest =>
        cases item with
        | ok other =>
          exact .inl ⟨some other, ⟨[token, other], rest, last⟩, rfl, List.cons_ne_nil _ _⟩
        | error error =>
          have hrun : second ⟨[token], .error error :: rest, last⟩ =
              if error.isEndOfFile then .ok none ⟨[token], rest, last⟩ else fail error
                ⟨[token], rest, last⟩ := rfl
          cases hended : error.isEndOfFile with
          | true => exact .inl ⟨none, ⟨[token], rest, last⟩, by rw [hrun, hended]; rfl, h⟩
          | false => exact .inr ⟨error, ⟨[token], rest, last⟩, by rw [hrun, hended]; rfl, hended⟩

/-- An action that begins and ends with tokens of its own. -/
structure Whole (action : Parse α) : Prop extends Committed action, Ending action

namespace Whole

/-- A token first, and a token last. -/
theorem of_bind {action : Parse α} {next : α → Parse β} (h : Committed action)
    (hnext : ∀ a, Ending (next a)) :
    Whole (action >>= next) :=
  ⟨h.bind fun a => (hnext a).composed.some, (Ending.after h.composed hnext).closed⟩

theorem map {action : Parse α} (h : Whole action) (f : α → β) : Whole (do return f (← action)) :=
  ⟨h.toCommitted.bind fun _ => .pure _, (h.toEnding.before fun _ => .pure _).closed⟩

protected theorem ite {condition : Prop} [Decidable condition] {yes no : Parse α} (hyes : Whole yes)
    (hno : Whole no) :
    Whole (if condition then yes else no) := by
  split
  · exact hyes
  · exact hno

theorem comingUp_bind {next : Token → Parse α} (h : ∀ token, Whole (next token)) :
    Whole (comingUp 1 >>= next) :=
  ⟨.comingUp_bind fun token => (h token).toCommitted,
    (Ending.after .comingUp fun token => (h token).toEnding).closed⟩

/-- Looking at the token behind the next one leaves the next one where it is, whether there is one
behind it or not. -/
theorem second_bind {next : Option Token → Parse α} (h : ∀ other, Whole (next other))
    (alone : Composed 2 (next none)) :
    Whole (second >>= next) where
  composed := .second_bind (fun other => (h other).composed) alone
  settled cursor hahead := by
    rcases second_cases hahead with ⟨other, after, hsecond, hafter⟩
      | ⟨error, after, hsecond, hended⟩
    · rw [bind_of_ok hsecond]
      exact (h other).settled after hafter
    · rw [bind_of_error hsecond]
      exact fun herror => absurd (hended.symm.trans herror) Bool.false_ne_true
  closed {cursor last a} hok more := by
    obtain ⟨other, after, hsecond, hlast⟩ := ok_of_bind hok
    rcases (uniform_second cursor).continues hsecond with hsame | ⟨rfl, hone⟩
    · exact (bind_of_ok (hsame more)).trans ((h other).closed hlast more)
    · have htwo := (alone.uniform after).consumes hlast
      omega

end Whole

/-- An expression and a semicolon, and a place for both. -/
theorem whole_valued {first : Expr → Location} {make : Expr → Location → α} :
    Whole (do
      let value ← expression
      let semicolon ← expectOperator ";"
      return make value (← span (first value) semicolon.location)) :=
  .of_bind committed_expression fun _ => (ending_expect _ _).before fun _ =>
    .span_bind fun _ => .pure _

theorem whole_assignment : Whole assignment :=
  .of_bind committed_name fun _ => .after (composed_expect _ _) fun _ => whole_valued.toEnding

theorem whole_declaration : Whole declaration := by
  refine .of_bind committed_name fun _ => .after composed_name fun _ =>
    .after .comingUp fun _ => .ite ?_ ?_
  · exact Ending.pop.before fun _ => .span_bind fun _ => .pure _
  · refine .after (composed_expect _ _) fun _ => .after composed_expression fun _ => ?_
    exact (ending_expect _ _).before fun _ => .span_bind fun _ => .span_bind fun _ => .pure _

theorem whole_result : Whole result :=
  .of_bind (committed_expect _ _) fun _ => whole_valued.toEnding

section Blocks

variable {statement : Parse Group} (hstatement : Composed 1 statement)

include hstatement

theorem ending_block : Ending (block statement) := by
  have hbody : Ending (do return (← bodyFrom statement [], ← pop)) :=
    .after (composed_bodyFrom hstatement []) fun _ => Ending.pop.before fun _ => .pure _
  exact .after (composed_expect _ _) fun _ => hbody

theorem whole_conditional : Whole (conditional statement) :=
  .of_bind (committed_expect _ _) fun _ => .after composed_expression fun _ =>
    (ending_block hstatement).before fun _ => .span_bind fun _ => .pure _

theorem whole_function : Whole (function statement) := by
  rw [function_eq]
  refine .of_bind (committed_expect _ _) fun _ => .after composed_name fun _ => ?_
  refine .after (composed_commaList composed_parameter.some) fun _ =>
    .after composed_returnType fun _ => ?_
  exact (ending_block hstatement).before fun _ => .span_bind fun _ => .pure _

end Blocks

theorem whole_plainStatement : Whole plainStatement := by
  have hlone : Whole (do return ({ first := ← expressionStatement } : Group)) := whole_valued.map _
  refine .second_bind (fun other => ?_) (composed_single composed_valued)
  cases other with
  | none => exact hlone
  | some => exact .ite (whole_assignment.map _) (.ite whole_declaration hlone)

/-- **A statement begins and ends with its own tokens.** -/
theorem whole_statement : Whole statement := by
  rw [statement_eq]
  refine .comingUp_bind fun first => .ite (.ite (whole_result.map _) ?_) (whole_valued.map _)
  refine .ite ((whole_conditional composed_statement).map _) ?_
  exact .ite ((whole_function composed_statement).map _) whole_plainStatement

end Parse

end FrontEnd
