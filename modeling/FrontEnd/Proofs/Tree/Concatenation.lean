import FrontEnd.Proofs.Tree.Exact
import FrontEnd.Proofs.Tree.Whole

/-!
# One stream behind another

A stream of statements is asked for its statements one by one. Where a stream of items starts with
tokens that are a program, first the statements of that program are yielded. Meanwhile nothing is
pulled but those tokens, since each statement is complete with its last token
(`Statements.Reading.passes`). Then the stream goes on as if it had started behind the tokens. All
that is left of them is the token taken last, which makes no difference: not to what is read, and
not to the place of an error (`Statements.read_behind`).
-/

namespace FrontEnd

open Parse Statements

namespace Statements

variable {statements : Statements} {cursor last : Cursor} {taken : List Token}

/-- The stream after it has been asked a number of times. -/
def after : Nat → Statements → Statements
  | 0, statements => statements
  | n + 1, statements => after n statements.next.2

/-- The answer of a stream that has been asked a number of times before. -/
def answer (statements : Statements) (n : Nat) : Option (Except Stop Stmt) :=
  (statements.after n).next.1

theorem after_add (statements : Statements) (m n : Nat) :
    statements.after (m + n) = (statements.after m).after n := by
  induction m generalizing statements with
  | zero => rw [Nat.zero_add, after]
  | succ m ih => rw [Nat.succ_add, after, after, ih]

/-! ### Nothing comes after the end -/

/-- What is yielded is a statement, or else nothing is yielded any more. -/
theorem next_cases (statements : Statements) : (∃ stmt, statements.next.1 = some (.ok stmt)) ∨
      statements.next.2.pending = [] ∧ statements.next.2.finished = true := by
  obtain ⟨cursor, pending, finished⟩ := statements
  cases pending with
  | cons stmt => exact .inl ⟨stmt, rfl⟩
  | nil =>
    cases finished with
    | true => exact .inr ⟨rfl, rfl⟩
    | false =>
      cases hread : read cursor with
      | error stop rest => exact .inr (by simp [next, hread])
      | ok result rest =>
        cases result with
        | none => exact .inr (by simp [next, hread])
        | some group => exact .inl ⟨group.first, by simp [next, hread]⟩

theorem next_of_finished (hpending : statements.pending = [])
    (hfinished : statements.finished = true) :
    statements.next = (none, statements) := by
  simp [next, hpending, hfinished]

theorem answer_of_finished (hpending : statements.pending = [])
    (hfinished : statements.finished = true) (n : Nat) :
    statements.answer n = none := by
  induction n with
  | zero => rw [answer, after, next_of_finished hpending hfinished]
  | succ n ih =>
    rw [answer, after, next_of_finished hpending hfinished]
    exact ih

/-- A stream ends with the first answer that is no statement. -/
theorem answer_eq_none {n m : Nat} (hlt : n < m)
    (h : ∀ stmt, statements.answer n ≠ some (.ok stmt)) :
    statements.answer m = none := by
  obtain ⟨k, rfl⟩ : ∃ k, m = n + (1 + k) := ⟨m - n - 1, by omega⟩
  rcases next_cases (statements.after n) with ⟨stmt, hstmt⟩ | ⟨hpending, hfinished⟩
  · exact absurd hstmt (h stmt)
  · rw [answer, after_add, after_add]
    exact answer_of_finished hpending hfinished k

/-! ### What was taken before -/

/-- There is an end, or a token that has been looked at, or an error that is not the end. -/
theorem atEnd_cases (cursor : Cursor) : (∃ rest, atEnd cursor = .ok true rest) ∨
      (∃ rest, atEnd cursor = .ok false rest ∧ rest.ahead ≠ []) ∨
      ∃ error rest, atEnd cursor = .error (.error error) rest ∧ error.isEndOfFile = false := by
  obtain ⟨ahead, rest, last⟩ := cursor
  cases ahead with
  | cons token ahead =>
    refine .inr (.inl ⟨⟨token :: ahead, rest, last⟩, ?_, List.cons_ne_nil _ _⟩)
    rw [atEnd, unlessEnded, bind_of_ok comingUp_of_ahead]
    rfl
  | nil =>
    cases rest with
    | nil => exact .inl ⟨_, rfl⟩
    | cons item rest =>
      cases item with
      | ok token => exact .inr (.inl ⟨⟨[token], rest, last⟩, rfl, List.cons_ne_nil _ _⟩)
      | error error =>
        have hrun : atEnd ⟨[], .error error :: rest, last⟩ =
            if error.isEndOfFile then .ok true ⟨[], rest, last⟩ else fail error ⟨[], rest, last⟩ :=
              rfl
        by_cases hended : error.isEndOfFile = true
        · rw [if_pos hended] at hrun
          exact .inl ⟨_, hrun⟩
        · rw [if_neg hended] at hrun
          exact .inr (.inr ⟨error, _, hrun, by simpa using hended⟩)

/-- Where a statement ends too early, one of its tokens has been taken. -/
theorem last_ne_none_of_ended {rest : Cursor} {error : Error}
    (h : statement? cursor = .error (.error error) rest) (hended : error.isEndOfFile = true) :
    rest.last ≠ none := by
  rw [statement?] at h
  rcases atEnd_cases cursor with ⟨middle, hend⟩ | ⟨middle, hend, hahead⟩
    | ⟨other, middle, hend, hother⟩
  · rw [bind_of_ok hend] at h
    cases h
  · rw [bind_of_ok hend] at h
    have hsettled := (whole_statement.map some).settled middle hahead
    have hstatement :
        (statement >>= fun group => pure (some group)) middle = .error (.error error) rest := h
    rw [hstatement] at hsettled
    exact hsettled hended
  · rw [bind_of_error hend] at h
    cases h
    rw [hother] at hended
    cases hended

/-- **What was taken before makes no difference to what is read, and none to the place of an
error.** -/
theorem read_behind (earlier : Option Token) (cursor : Cursor) :
    read (cursor.behind earlier) = outcomeBehind earlier (read cursor) := by
  rw [read_eq_relocating, relocating, relocating,
    (composed_statement?.uniform cursor).oblivious earlier]
  cases hrun : statement? cursor with
  | ok => rfl
  | error stop rest =>
    cases stop with
    | fault => rfl
    | error error =>
      have hplace : (rest.behind earlier).relocate error = rest.relocate error := by
        unfold Cursor.relocate
        by_cases hended : error.isEndOfFile = true
        · obtain ⟨token, htoken⟩ :=
            Option.ne_none_iff_exists'.mp (last_ne_none_of_ended hrun hended)
          simp [Cursor.behind, htoken]
        · simp [hended]
      change fail ((rest.behind earlier).relocate error) (rest.behind earlier) = _
      rw [hplace]
      rfl

/-- The stream where a token may have been taken before. -/
def behind (earlier : Option Token) (statements : Statements) : Statements :=
  { statements with cursor := statements.cursor.behind earlier }

theorem next_behind (earlier : Option Token) (statements : Statements) :
    (statements.behind earlier).next = (statements.next.1, statements.next.2.behind earlier) := by
  obtain ⟨cursor, pending, finished⟩ := statements
  cases pending with
  | cons => rfl
  | nil =>
    cases finished with
    | true => rfl
    | false =>
      have hread := read_behind earlier cursor
      simp only [next, behind, hread, Bool.false_eq_true, if_false]
      cases read cursor with
      | error => rfl
      | ok result => cases result <;> rfl

theorem answer_behind (earlier : Option Token) (statements : Statements) (n : Nat) :
    (statements.behind earlier).answer n = statements.answer n := by
  induction n generalizing statements with
  | zero => rw [answer, after, next_behind, answer, after]
  | succ n ih =>
    rw [answer, after, next_behind, answer, after]
    exact ih statements.next.2

/-! ### Tokens that are a program -/

section Passing

variable {holds : Statements → Prop} {statements middle last : Statements} {program more : Program}
  {cursor : Cursor}

/-- Statements that are yielded one after the other, by streams that all have a property. -/
inductive Passes (holds : Statements → Prop) : Statements → Program → Statements → Prop
  | nil {statements : Statements} (here : holds statements) : Passes holds statements [] statements
  | cons {statements rest last : Statements} {stmt : Stmt} {program : Program}
      (here : holds statements) (yields : statements.next = (some (.ok stmt), rest))
      (behind : Passes holds rest program last) :
      Passes holds statements (stmt :: program) last

namespace Passes

variable {n : Nat}

theorem trans (h : Passes holds statements program middle) (hmore : Passes holds middle more last) :
    Passes holds statements (program ++ more) last := by
  induction h with
  | nil => exact hmore
  | cons here yields _ ih => exact .cons here yields (ih hmore)

section

variable (h : Passes holds statements program last)
include h

theorem after_length : statements.after program.length = last := by
  induction h with
  | nil => rfl
  | cons _ yields _ ih =>
    rw [List.length_cons, after, yields]
    exact ih

theorem answer_eq {stmt : Stmt} (hstmt : program[n]? = some stmt) :
    statements.answer n = some (.ok stmt) := by
  induction h generalizing n with
  | nil => simp at hstmt
  | cons _ yields _ ih =>
    cases n with
    | zero =>
      rw [answer, after, yields]
      simpa using hstmt
    | succ =>
      rw [answer, after, yields]
      exact ih (by simpa using hstmt)

theorem holds_after (hn : n ≤ program.length) : holds (statements.after n) := by
  induction h generalizing n with
  | nil here =>
    obtain rfl := Nat.le_zero.mp hn
    exact here
  | cons here yields _ ih =>
    cases n with
    | zero => exact here
    | succ =>
      rw [after, yields]
      exact ih (Nat.le_of_succ_le_succ hn)

end

end Passes

theorem passes_pending (h : ∀ pending, holds { cursor, pending }) (pending : List Stmt) :
    Passes holds { cursor, pending } pending { cursor } := by
  induction pending with
  | nil => exact .nil (h [])
  | cons stmt pending ih => exact .cons (h _) rfl ih

/-- The statements of a group are yielded before anything else is read. -/
theorem passes_group {rest : Cursor} {group : Parse.Group}
    (hread : read cursor = .ok (some group) rest) (hhere : holds { cursor })
    (hrest : ∀ pending, holds { cursor := rest, pending }) :
    Passes holds { cursor } group.toList { cursor := rest } := by
  refine .cons hhere ?_ (passes_pending hrest group.others)
  simp [next, hread]

end Passing

variable {front tokens : List Token} {behind : List Item} {program : Program}

/-- Where all items have been taken and others follow, there is a stream of those behind the token
taken last. -/
theorem followed_of_pending_nil (h : cursor.pending = []) :
    cursor.followed behind = (Cursor.ofItems behind).behind cursor.last := by
  obtain ⟨ahead, rest, last⟩ := cursor
  obtain ⟨rfl, rfl⟩ : ahead = [] ∧ rest = [] := by simpa [Cursor.pending] using h
  rfl

/-- A statement is the same with other items behind its tokens, and none of them are pulled. -/
theorem read_followed {after : Cursor} {group : Parse.Group}
    (h : read cursor = .ok (some group) after) (more : List Item) :
    read (cursor.followed more) = .ok (some group) (after.followed more) := by
  have hrun : statement? cursor = .ok (some group) after := ok_of_relocating h
  obtain ⟨ended, middle, hend, hstatement⟩ := ok_of_bind hrun
  cases ended with
  | true => cases hstatement
  | false =>
    have hwhole := whole_statement.map some
    have htaken := (hwhole.composed.uniform middle).consumes hstatement
    rcases ((Parse.Composed.peek true fun _ => false).uniform cursor).continues
      hend with hsame | hspent
    · have hmore : statement? (cursor.followed more) = .ok (some group) (after.followed more) :=
        (bind_of_ok (hsame more)).trans (hwhole.closed hstatement more)
      rw [read_eq_relocating, relocating, hmore]
    · unfold spent at hspent
      omega

/-- A stream that has pulled nothing but some of the tokens in front of other items. -/
def WithinFront (front : List Token) (behind : List Item) (statements : Statements) : Prop :=
  ∃ pulled unread : List Token, front = pulled ++ unread ∧
    statements.cursor.rest = unread.map .ok ++ behind

theorem withinFront_of_pending (hfront : front = taken ++ tokens)
    (hpending : cursor.pending = tokens.map .ok) (pending : List Stmt) :
    WithinFront front behind { cursor := cursor.followed behind, pending } := by
  obtain ⟨ahead, unread, rfl, -, hrest⟩ := List.append_eq_map_iff.mp hpending
  refine ⟨taken ++ ahead, unread, by rw [hfront, List.append_assoc], ?_⟩
  change cursor.rest ++ behind = _
  rw [← hrest]

theorem Reading.pending_eq (h : Reading cursor tokens program last) :
    cursor.pending = tokens.map .ok := by
  cases h with
  | nil empty => exact empty
  | cons front => exact front

theorem Reading.pending_last (h : Reading cursor tokens program last) : last.pending = [] := by
  induction h with
  | nil empty => exact empty
  | cons _ _ _ _ ih => exact ih

/-- The statements of a program are yielded while only its tokens are pulled. -/
theorem Reading.passes (h : Reading cursor tokens program last) (hfront : front = taken ++ tokens) :
    Passes (WithinFront front behind) { cursor := cursor.followed behind } program
      { cursor := last.followed behind } := by
  induction h generalizing taken with
  | nil empty => exact .nil (withinFront_of_pending hfront empty [])
  | @cons cursor after last segment tokens group program hpending _ reads hrest ih =>
    have hbehind : front = (taken ++ segment) ++ tokens := by rw [hfront, List.append_assoc]
    refine Passes.trans (passes_group (read_followed reads behind)
      (withinFront_of_pending hfront hpending [])
      fun pending => ?_) (ih hbehind)
    exact withinFront_of_pending hbehind hrest.pending_eq pending

end Statements

/-- **Reading goes on behind a program as if there were nothing in front.** Where tokens are read as
a program, a stream of these tokens and any items behind them yields the statements of the program
in order, and until then it has pulled none of the other items. From then on it yields exactly what
the stream of the other items yields: statements, and perhaps an error, at the same place; and
nothing after that. -/
theorem statements_concatenate {front : List Token} {program : Program}
    (h : parse (front.map .ok) = .ok program) (behind : List Item) :
    (∀ n stmt, program[n]? = some stmt →
      (ofItems (front.map .ok ++ behind)).answer n = some (.ok stmt)) ∧
    (∀ n ≤ program.length, ∃ pulled unread : List Token, front = pulled ++ unread ∧
      ((ofItems (front.map .ok ++ behind)).after n).cursor.rest = unread.map .ok ++ behind) ∧
    (((ofItems (front.map .ok ++ behind)).after program.length).cursor.ahead = [] ∧
      ((ofItems (front.map .ok ++ behind)).after program.length).cursor.rest = behind) ∧
    (∀ n, (ofItems (front.map .ok ++ behind)).answer (program.length + n) =
      (ofItems behind).answer n) ∧
    ∀ n m, n < m → (∀ stmt, (ofItems behind).answer n ≠ some (.ok stmt)) →
      (ofItems behind).answer m = none := by
  obtain ⟨last, hreading⟩ := reading_of_parse h
  have hpasses :
      Statements.Passes (Statements.WithinFront front behind) (.ofItems (front.map .ok ++ behind))
        program { cursor := last.followed behind } := hreading.passes (List.nil_append front).symm
  have hlast : (ofItems (front.map .ok ++ behind)).after program.length =
      (ofItems behind).behind last.last := by
    rw [hpasses.after_length, followed_of_pending_nil hreading.pending_last]
    rfl
  refine ⟨fun n stmt => hpasses.answer_eq, fun n => hpasses.holds_after, ?_, fun n =>
    ?_, fun n m => ?_⟩
  · rw [hlast]
    exact ⟨rfl, rfl⟩
  · rw [answer, after_add, hlast]
    exact answer_behind _ _ n
  · exact answer_eq_none

/-- The tokens of a declaration with a value, which is read as two statements. -/
def initialisedNumber : List Token :=
  [⟨.name, "Int", ⟨1, 0, some 3⟩⟩, ⟨.name, "x", ⟨1, 4, some 5⟩⟩, ⟨.operator, "=", ⟨1, 6, some 7⟩⟩,
    ⟨.integer, "1", ⟨1, 8, some 9⟩⟩, ⟨.operator, ";", ⟨1, 9, some 10⟩⟩]

/-- The beginning of a call. -/
def unfinishedCall : List Item :=
  [.ok ⟨.name, "f", ⟨2, 0, some 1⟩⟩, .ok ⟨.operator, "(", ⟨2, 1, some 2⟩⟩]

theorem statements_concatenate_unfinishedCall :
    parse (initialisedNumber.map .ok) = .ok
        [.declaration ⟨"Int", ⟨1, 0, some 3⟩⟩ "x" ⟨1, 0, some 5⟩,
          .assignment ⟨"x", ⟨1, 4, some 5⟩⟩ (.integer "1" ⟨1, 8, some 9⟩) ⟨1, 4, some 10⟩] ∧
      (ofItems (initialisedNumber.map .ok ++ unfinishedCall)).answer 2 =
        some (.error (.error (Cause.unexpectedEndOfFile.located ⟨2, 2, some 5⟩))) ∧
      (ofItems (initialisedNumber.map .ok ++ unfinishedCall)).answer 3 = none := by
  have hparse : parse (initialisedNumber.map .ok) = .ok
      [.declaration ⟨"Int", ⟨1, 0, some 3⟩⟩ "x" ⟨1, 0, some 5⟩,
        .assignment ⟨"x", ⟨1, 4, some 5⟩⟩ (.integer "1" ⟨1, 8, some 9⟩) ⟨1, 4, some 10⟩] := by
    rfl
  obtain ⟨-, -, -, hsame, -⟩ := statements_concatenate hparse unfinishedCall
  exact ⟨hparse, (hsame 0).trans (by rfl), (hsame 1).trans (by rfl)⟩

end FrontEnd
