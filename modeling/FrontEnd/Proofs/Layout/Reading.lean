import FrontEnd.Proofs.Compile.Faultless
import FrontEnd.Proofs.Layout.Unplaced

/-!
# Tokens are read the same wherever they stand

The parser looks at kinds and texts of tokens, never at their places; it only joins places to tell
where a tree stands and where an error is. So from a stream without places every action of the
parser does what it does from the stream with them (`Parse.Mimics`), from looking at a token up to
reading a statement. One thing depends on places: places are joined only in the order of their
lines, and else there is a fault. Places of a text never lead to it, so faults are left out here.

A step of the stream of statements yields the same without places (`Statements.next_unplaced`), and
so does a run (`Statements.take_unplaced`). With the brackets checked in front, a file without
places is read as the file with places, but for places (`Program.ofTokens_unplaced`).
-/

namespace FrontEnd

open List Token

variable {tokens : List Token}

/-! ### Cursors -/

def Item.unplaced (item : Item) : Item := (item.mapError Error.unplaced).map Token.unplaced

def Cursor.unplaced (cursor : Cursor) : Cursor :=
  ⟨cursor.ahead.map Token.unplaced, cursor.rest.map Item.unplaced, cursor.last.map Token.unplaced⟩

namespace Parse

variable {α β : Type}

/-- Reading without places. A fault is the business of those who show that there are none. -/
def view : View Stop Cursor where
  state := Cursor.unplaced
  alike stop stop' := stop'.unplaced = stop.unplaced
  excused stop := ∃ fault, stop = .fault fault

/-- Doing without places what an action does. -/
abbrev Mimics (value : α → β) (action : Parse α) (other : Parse β) : Prop :=
  view.Mimics value action other

section Cursors

variable {value : α → β}

theorem mimics_fail (cause : Cause) (location location' : Location) :
    Mimics value (fail (cause.located location)) (fail (cause.located location')) :=
  .throw rfl

theorem mimics_fail_bind {γ δ : Type} (cause : Cause) (location location' : Location)
    {next : γ → Parse α} {next' : δ → Parse β} :
    Mimics value (fail (cause.located location) >>= next)
      (fail (cause.located location') >>= next') :=
  .throw_bind rfl

theorem mimics_endOfFile : Mimics value endOfFile endOfFile := .throw rfl

theorem mimics_size : Mimics id size size where
  ok {state after result} h := by
    cases h
    change EStateM.Result.ok state.unplaced.size state.unplaced = _
    simp [Cursor.size, Cursor.unplaced, view]
  error h := by cases h

theorem mimics_span (first last : Location) :
    Mimics (fun _ => Location.nowhere) (span first last) (span .nowhere .nowhere) := by
  unfold span
  cases first.between? last with
  | some location => exact .pure location
  | none => exact .throw_excused ⟨.backwardSpan, rfl⟩

theorem mimics_pull : Mimics id pull pull where
  ok {cursor after result} h := by
    obtain ⟨ahead, rest, last⟩ := cursor
    cases rest with
    | nil => cases h
    | cons item =>
      cases item with
      | error => cases h
      | ok =>
        cases h
        change EStateM.Result.ok () _ = _
        simp [view, Cursor.unplaced]
  error {cursor after stop} h := by
    obtain ⟨ahead, rest, last⟩ := cursor
    cases rest with
    | nil => cases h; exact .inr ⟨_, rfl, rfl⟩
    | cons item =>
      cases item with
      | error error =>
        -- the stream without places has the error without its place
        cases h
        exact .inr ⟨_, rfl, congrArg Stop.error error.unplaced_unplaced⟩
      | ok => cases h

theorem mimics_fill (count : Nat) : Mimics id (fill count) (fill count) := by
  have hmany (missing : Nat) : Mimics id (pullMany missing) (pullMany missing) := by
    induction missing with
    | zero => exact .pure ()
    | succ missing ih => exact mimics_pull.bind fun _ => ih
  refine View.Mimics.get.bind fun cursor => ?_
  have hlength : (view.state cursor).ahead.length = cursor.ahead.length := length_map _
  rw [hlength]
  exact hmany _

/-- Looking at a token. There is no looking further than the cursor allows, with places or
without. -/
theorem mimics_comingUp (n : Nat) : Mimics unplaced (comingUp n) (comingUp n) := by
  refine .ite (.throw_excused ⟨.lookahead, rfl⟩) ?_
  refine (mimics_fill n).bind fun _ => View.Mimics.get.bind fun cursor => ?_
  have hahead : (view.state cursor).ahead[n - 1]? = cursor.ahead[n - 1]?.map Token.unplaced :=
    getElem?_map
  rw [hahead]
  cases cursor.ahead[n - 1]? with
  | some token => exact .pure token
  | none => exact mimics_endOfFile

theorem mimics_pop : Mimics unplaced pop pop := by
  refine (mimics_fill 1).bind fun _ => View.Mimics.get.bind fun cursor => ?_
  obtain ⟨ahead, rest, last⟩ := cursor
  cases ahead with
  | nil => exact mimics_endOfFile
  | cons token => exact View.Mimics.set.bind fun _ => .pure token

/-- An action that stops with an error is mimicked by one that stops with the same error but for
places. -/
theorem Mimics.fails {action : Parse α} {other : Parse β} (h : Mimics value action other)
    {cursor after : Cursor} {error : Error}
    (haction : action cursor = .error (.error error) after) :
    ∃ error', other cursor.unplaced = .error (.error error') after.unplaced ∧
      error'.unplaced = error.unplaced := by
  rcases h.error haction with ⟨fault, hfault⟩ | ⟨stop, hother, halike⟩
  · cases hfault
  · cases stop with
    | fault => cases halike
    | error error' => exact ⟨error', hother, Stop.error.inj halike⟩

/-- Goes on with another action when an action stops with an error. -/
def catching (handler : Error → Parse α) (action : Parse α) : Parse α := fun cursor =>
  match action cursor with
  | .error (.error error) after => handler error after
  | outcome => outcome

section Catching

variable {action : Parse α} {other : Parse β} {handler : Error → Parse α}
  {handler' : Error → Parse β} {cursor after : Cursor} {error error' : Error}

theorem catching_of_ok {result : α} (h : action cursor = .ok result after) :
    catching handler action cursor = .ok result after := by
  unfold catching
  rw [h]

theorem catching_of_fault {fault : Fault} (h : action cursor = .error (.fault fault) after) :
    catching handler action cursor = .error (.fault fault) after := by
  unfold catching
  rw [h]

theorem catching_of_error (h : action cursor = .error (.error error) after) :
    catching handler action cursor = handler error after := by
  unfold catching
  rw [h]

/-- Errors that are the same but for places are handled the same. -/
theorem mimics_catching (h : Mimics value action other)
    (hhandler : ∀ {error error' : Error}, error'.unplaced = error.unplaced →
      Mimics value (handler error) (handler' error')) :
    Mimics value (catching handler action) (catching handler' other) where
  ok {cursor last result} hok := by
    cases haction : action cursor with
    | ok =>
      rw [catching_of_ok haction] at hok
      cases hok
      exact catching_of_ok (h.ok haction)
    | error stop =>
      cases stop with
      | fault => rw [catching_of_fault haction] at hok; cases hok
      | error =>
        obtain ⟨error', hother, halike⟩ := h.fails haction
        rw [catching_of_error haction] at hok
        exact (catching_of_error hother).trans ((hhandler halike).ok hok)
  error {cursor last stop} herror := by
    cases haction : action cursor with
    | ok => rw [catching_of_ok haction] at herror; cases herror
    | error stop =>
      cases stop with
      | fault fault =>
        rw [catching_of_fault haction] at herror
        cases herror
        exact .inl ⟨fault, rfl⟩
      | error =>
        obtain ⟨error', hother, halike⟩ := h.fails haction
        rw [catching_of_error haction] at herror
        refine ((hhandler halike).error herror).imp_right ?_
        rintro ⟨stop', hstop, hsame⟩
        exact ⟨stop', (catching_of_error hother).trans hstop, hsame⟩

theorem unlessEnded_eq_catching (ended : α) (action : Parse α) :
    unlessEnded ended action =
      catching (fun error => if error.isEndOfFile then pure ended else fail error) action := by
  funext cursor
  unfold unlessEnded catching
  cases action cursor with
  | ok => rfl
  | error stop =>
    cases stop with
    | fault => rfl
    | error error => cases hended : error.isEndOfFile <;> simp only [hended] <;> rfl

theorem relocating_eq_catching (action : Parse α) :
    relocating action = catching (fun error after => fail (after.relocate error) after) action :=
  rfl

theorem mimics_unlessEnded (h : Mimics value action other) (ended : α) :
    Mimics value (unlessEnded ended action) (unlessEnded (value ended) other) := by
  rw [unlessEnded_eq_catching, unlessEnded_eq_catching]
  refine mimics_catching h fun {error error'} halike => ?_
  rw [Error.isEndOfFile_of_unplaced halike]
  exact .ite (.pure ended) (.throw (congrArg Stop.error halike))

theorem relocate_unplaced (h : error'.unplaced = error.unplaced) (cursor : Cursor) :
    (cursor.unplaced.relocate error').unplaced = (cursor.relocate error).unplaced := by
  unfold Cursor.relocate
  rw [Error.isEndOfFile_of_unplaced h]
  split
  · rfl
  · exact h

/-- An end of file is right behind the token taken last, wherever that stands. -/
theorem mimics_fail_relocated (h : error'.unplaced = error.unplaced) :
    Mimics value (fun after => fail (after.relocate error) after) fun after =>
      fail (after.relocate error') after where
  ok hok := by cases hok
  error {cursor after stop} herror := by
    cases herror
    exact .inr ⟨_, rfl, congrArg Stop.error (relocate_unplaced h cursor)⟩

theorem mimics_relocating (h : Mimics value action other) :
    Mimics value (relocating action) (relocating other) := by
  rw [relocating_eq_catching, relocating_eq_catching]
  exact mimics_catching h mimics_fail_relocated

end Catching

theorem mimics_nextIs (kind : Token.Kind) (text : String) :
    Mimics id (nextIs kind text) (nextIs kind text) :=
  mimics_unlessEnded ((mimics_comingUp 1).bind fun token => .pure (token.is kind text)) false

theorem mimics_atEnd : Mimics id atEnd atEnd :=
  mimics_unlessEnded ((mimics_comingUp 1).bind fun _ => .pure false) true

theorem mimics_expect (kind : Token.Kind) (text : Option String) :
    Mimics unplaced (expect kind text) (expect kind text) := by
  refine (mimics_comingUp 1).bind fun token => ?_
  have htake : Mimics unplaced (if token.kind ≠ kind then
      fail ((Cause.expectedKind (Text.withArticle kind.noun)).located token.location) >>=
        fun _ : Unit => pop
    else pop) (if token.kind ≠ kind then
      fail ((Cause.expectedKind (Text.withArticle kind.noun)).located .nowhere) >>= fun _ : Unit =>
        pop
    else pop) :=
    .ite (mimics_fail_bind _ _ _) mimics_pop
  cases text with
  | none => exact htake
  | some => exact .ite (mimics_fail_bind _ _ _) htake

end Cursors

/-! ### Lists and expressions -/

section Lists

variable {value : α → β} {element : Parse α} {element' : Parse β} {start stop : String}

/-- Elements up to the closing token, those in front included. -/
theorem mimics_elements (h : Mimics value element element') (rounds : Nat) (before : List α) :
    Mimics (Prod.map (List.map value) unplaced) (elements stop element rounds before)
      (elements stop element' rounds (before.map value)) := by
  induction rounds generalizing before with
  | zero => exact mimics_endOfFile
  | succ rounds ih =>
    refine (mimics_comingUp 1).bind fun first => .ite (mimics_fail_bind _ _ _) ?_
    refine h.bind fun found => (mimics_comingUp 1).bind fun behind => ?_
    have hfound : before.map value ++ [value found] = (before ++ [found]).map value := by
      rw [map_append, map_singleton]
    rw [hfound]
    have hend : Mimics (Prod.map (List.map value) unplaced) (do return (before ++ [found], ← pop))
        (do return ((before ++ [found]).map value, ← pop)) :=
      mimics_pop.bind fun close => .pure (before ++ [found], close)
    -- behind an element there is the end of the list, or a comma and either the end or more
    -- elements
    refine .ite hend ?_
    refine (mimics_expect _ _).bind fun comma => (mimics_comingUp 1).bind fun next => ?_
    refine .ite ((mimics_span _ _).bind fun _ => mimics_fail_bind _ _ _) (.ite hend ?_)
    exact ih (before ++ [found])

theorem mimics_commaList (h : Mimics value element element') :
    Mimics (Prod.map (List.map value) unplaced) (commaList start stop element)
      (commaList start stop element') := by
  refine (mimics_expect _ _).bind fun _ => (mimics_comingUp 1).bind fun behind => ?_
  refine .ite (mimics_pop.bind fun close => .pure ([], close)) (mimics_size.bind fun rounds => ?_)
  exact mimics_elements h rounds []

end Lists

theorem mimics_name : Mimics Name.unplaced name name := by
  refine (mimics_expect _ _).bind fun token => ?_
  exact .ite (mimics_fail_bind _ _ _) (.pure (Name.mk token.value token.location))

theorem mimics_primary : Mimics Expr.unplaced primary primary := by
  refine (mimics_comingUp 1).bind fun token => ?_
  obtain ⟨kind, text, location⟩ := token
  cases kind with
  | name => exact mimics_name.bind fun found => .pure (Expr.name found)
  | integer => exact mimics_pop.bind fun token => .pure (Expr.integer token.value token.location)
  | string =>
    refine mimics_pop.bind fun token => ?_
    obtain ⟨-, value, location⟩ := token
    simp only [unplaced]
    cases unquote? value with
    | some text => exact .pure (Expr.string text location)
    | none => exact .throw_excused ⟨.unquotedString, rfl⟩
  | operator => exact mimics_fail _ _ _

theorem mimics_calls {arguments others : Parse (List Expr × Token)}
    (h : Mimics (Prod.map (List.map Expr.unplaced) unplaced) arguments others) (rounds : Nat)
    (callee : Expr) :
    Mimics Expr.unplaced (calls arguments rounds callee) (calls others rounds callee.unplaced) := by
  induction rounds generalizing callee with
  | zero => exact .pure callee
  | succ rounds ih =>
    refine (mimics_nextIs _ _).bind fun more => .ite ?_ (.pure callee)
    refine h.bind fun found => ?_
    obtain ⟨found, close⟩ := found
    simp only [Prod.map_apply, Expr.location_unplaced]
    -- what has been called is what is called next
    refine (mimics_span _ _).bind fun location => ?_
    rw [← Expr.unplaced_call callee found location]
    exact ih _

/-- Expressions within a number of tokens: arguments have fewer. -/
theorem mimics_expressionWithin (left : Nat) :
    Mimics Expr.unplaced (expressionWithin left) (expressionWithin left) := by
  induction left with
  | zero => exact mimics_endOfFile
  | succ left ih =>
    refine mimics_primary.bind fun first => mimics_size.bind fun rounds => ?_
    exact mimics_calls (mimics_commaList ih) rounds first

theorem mimics_expression : Mimics Expr.unplaced expression expression :=
  mimics_size.bind fun left => mimics_expressionWithin left

/-! ### Statements -/

def Group.unplaced (group : Group) : Group := ⟨group.first.unplaced, group.others.map Stmt.unplaced⟩

theorem Group.toList_unplaced (group : Group) :
    group.unplaced.toList = group.toList.map Stmt.unplaced := rfl

theorem mimics_expressionStatement :
    Mimics Stmt.unplaced expressionStatement expressionStatement := by
  refine mimics_expression.bind fun found => (mimics_expect _ _).bind fun semicolon => ?_
  rw [Expr.location_unplaced]
  exact (mimics_span _ _).bind fun location => .pure (Stmt.expression found location)

theorem mimics_assignment : Mimics Stmt.unplaced assignment assignment := by
  refine mimics_name.bind fun target => (mimics_expect _ _).bind fun _ => ?_
  refine mimics_expression.bind fun found => (mimics_expect _ _).bind fun semicolon => ?_
  exact (mimics_span _ _).bind fun location => .pure (Stmt.assignment target found location)

theorem mimics_declaration : Mimics Group.unplaced declaration declaration := by
  refine mimics_name.bind fun type => mimics_name.bind fun target =>
    (mimics_comingUp 1).bind fun behind => .ite ?_ ?_
  · refine mimics_pop.bind fun semicolon => (mimics_span _ _).bind fun location => ?_
    exact .pure (Group.mk (.declaration type target.text location) [])
  · refine (mimics_expect _ _).bind fun _ => mimics_expression.bind fun found => ?_
    refine (mimics_expect _ _).bind fun semicolon => (mimics_span _ _).bind fun location => ?_
    refine (mimics_span _ _).bind fun location' => ?_
    exact .pure (Group.mk (.declaration type target.text location)
      [.assignment target found location'])

theorem mimics_result : Mimics Stmt.unplaced result result := by
  refine (mimics_expect _ _).bind fun word => mimics_expression.bind fun found => ?_
  refine (mimics_expect _ _).bind fun semicolon => (mimics_span _ _).bind fun location => ?_
  exact .pure (Stmt.result found location)

section Blocks

variable {statement : Parse Group}

section

variable (h : Mimics Group.unplaced statement statement)
include h

theorem mimics_statementsToBrace (rounds : Nat) (before : List Stmt) :
    Mimics (List.map Stmt.unplaced) (statementsToBrace statement rounds before)
      (statementsToBrace statement rounds (before.map Stmt.unplaced)) := by
  induction rounds generalizing before with
  | zero => exact mimics_endOfFile
  | succ rounds ih =>
    refine (mimics_comingUp 1).bind fun next => .ite (.pure before) (h.bind fun group => ?_)
    rw [Group.toList_unplaced, ← map_append]
    exact ih _

theorem mimics_block :
    Mimics (Prod.map (List.map Stmt.unplaced) unplaced) (block statement) (block statement) := by
  refine (mimics_expect _ _).bind fun _ => mimics_size.bind fun rounds => ?_
  refine (mimics_statementsToBrace h rounds []).bind fun body => mimics_pop.bind fun close => ?_
  exact .pure (body, close)

theorem mimics_conditional :
    Mimics Stmt.unplaced (conditional statement) (conditional statement) := by
  refine (mimics_expect _ _).bind fun word => mimics_expression.bind fun condition => ?_
  refine (mimics_block h).bind fun found => ?_
  obtain ⟨body, close⟩ := found
  refine (mimics_span _ _).bind fun location => ?_
  rw [← Stmt.unplaced_conditional condition body location]
  exact .pure _

end

theorem mimics_parameter : Mimics Parameter.unplaced parameter parameter :=
  mimics_name.bind fun type => mimics_name.bind fun target => .pure (Parameter.mk type target)

theorem mimics_function (h : Mimics Group.unplaced statement statement) :
    Mimics Stmt.unplaced (function statement) (function statement) := by
  refine (mimics_expect _ _).bind fun word => mimics_name.bind fun target => ?_
  refine (mimics_commaList mimics_parameter).bind fun found => ?_
  obtain ⟨parameters, -⟩ := found
  -- the body follows, whether there is a type in front of it or not
  have hbody (returnType : Option Name) : Mimics Stmt.unplaced (do
        let found ← block statement
        return .function target.text parameters returnType found.1
          (← span word.location found.2.location))
      (do
        let found ← block statement
        return .function target.text (parameters.map Parameter.unplaced)
          (returnType.map Name.unplaced) found.1 (← span .nowhere found.2.location)) := by
    refine (mimics_block h).bind fun found => ?_
    obtain ⟨body, close⟩ := found
    refine (mimics_span _ _).bind fun location => ?_
    rw [Prod.map_fst, ← Stmt.unplaced_function target.text parameters returnType body location]
    exact .pure _
  refine (mimics_comingUp 1).bind fun next => .ite ?_ (hbody none)
  exact mimics_pop.bind fun _ => mimics_name.bind fun type => hbody (some type)

theorem mimics_plainStatement : Mimics Group.unplaced plainStatement plainStatement := by
  have hsecond : Mimics (Option.map unplaced) (some <$> comingUp 2) (some <$> comingUp 2) :=
    (mimics_comingUp 2).map fun _ => rfl
  refine (mimics_unlessEnded hsecond none).bind fun second => ?_
  have hexpression : Mimics Group.unplaced (do return { first := ← expressionStatement })
      (do return { first := ← expressionStatement }) :=
    mimics_expressionStatement.bind fun stmt => .pure (Group.mk stmt [])
  cases second with
  | none => exact hexpression
  | some =>
    refine .ite (mimics_assignment.bind fun stmt => .pure (Group.mk stmt [])) ?_
    exact .ite mimics_declaration hexpression

/-- Statements within a number of tokens, by induction on the number: a statement inside has
fewer. -/
theorem mimics_statementWithin (left : Nat) :
    Mimics Group.unplaced (statementWithin left) (statementWithin left) := by
  induction left with
  | zero => exact mimics_endOfFile
  | succ left ih =>
    refine (mimics_comingUp 1).bind fun first => .ite ?_ ?_
    · refine .ite (mimics_result.bind fun stmt => .pure (Group.mk stmt [])) ?_
      refine .ite ((mimics_conditional ih).bind fun stmt => .pure (Group.mk stmt [])) ?_
      exact .ite ((mimics_function ih).bind fun stmt => .pure (Group.mk stmt []))
        mimics_plainStatement
    · exact mimics_expressionStatement.bind fun stmt => .pure (Group.mk stmt [])

theorem mimics_statement : Mimics Group.unplaced Parse.statement Parse.statement :=
  mimics_size.bind fun left => mimics_statementWithin left

end Blocks

end Parse

/-! ### Streams of statements -/

/-- Reading two files ends the same but for places. -/
abbrev Stop.Alike {α : Type} (value : α → α) : Except Stop α → Except Stop α → Prop :=
  FrontEnd.Alike (fun stop stop' => stop'.unplaced = stop.unplaced) value

theorem Stop.Alike.ofError {α : Type} (result : Except Error α) :
    Alike id (ofError result) (Stop.ofError (result.mapError Error.unplaced)) := by
  cases result with
  | ok found => exact .ok found
  | error error => exact .error (congrArg Stop.error error.unplaced_unplaced)

namespace Statements

theorem mimics_read : Parse.Mimics (Option.map Parse.Group.unplaced) read read := by
  refine Parse.mimics_relocating (Parse.mimics_atEnd.bind fun ended => .ite (.pure none) ?_)
  exact Parse.mimics_statement.bind fun group => .pure (some group)

def unplaced (statements : Statements) : Statements :=
  ⟨statements.cursor.unplaced, statements.pending.map Stmt.unplaced, statements.finished⟩

section Steps

variable {cursor after : Cursor}

theorem next_of_read_none (h : read cursor = .ok none after) :
    next { cursor } = (none, { cursor := after, finished := true }) := by
  simp [next, h]

theorem next_of_read_some {group : Parse.Group} (h : read cursor = .ok (some group) after) :
    next { cursor } = (some (.ok group.first), { cursor := after, pending := group.others }) := by
  simp [next, h]

theorem next_of_read_error {stop : Stop} (h : read cursor = .error stop after) :
    next { cursor } = (some (.error stop), { cursor := after, finished := true }) := by
  simp [next, h]

end Steps

/-- One step of a stream: the same is yielded but for places, and the same is left but for
places. -/
theorem next_unplaced (statements : Statements) :
    (∃ rest, statements.next = (none, rest) ∧ statements.unplaced.next = (none, rest.unplaced)) ∨
    (∃ result result' rest, statements.next = (some result, rest) ∧
      statements.unplaced.next = (some result', rest.unplaced) ∧
      Stop.Alike Stmt.unplaced result result') ∨
    ∃ fault rest, statements.next = (some (.error (.fault fault)), rest) := by
  obtain ⟨cursor, pending, finished⟩ := statements
  -- a statement that was read with an earlier one needs no reading, nor does a stream that has
  -- ended
  cases pending with
  | cons stmt pending => exact .inr (.inl ⟨_, _, ⟨cursor, pending, finished⟩, rfl, rfl, .ok stmt⟩)
  | nil =>
    cases finished with
    | true => exact .inl ⟨_, rfl, rfl⟩
    | false =>
      cases hread : read cursor with
      | ok found =>
        have hother := mimics_read.ok hread
        cases found with
        | none => exact .inl ⟨_, next_of_read_none hread, next_of_read_none hother⟩
        | some group =>
          exact .inr (.inl ⟨_, _, _, next_of_read_some hread, next_of_read_some hother,
            .ok group.first⟩)
      | error =>
        rcases mimics_read.error hread with ⟨fault, rfl⟩ | ⟨stop', hother, halike⟩
        · exact .inr (.inr ⟨fault, _, next_of_read_error hread⟩)
        · exact .inr (.inl ⟨_, _, _, next_of_read_error hread, next_of_read_error hother,
            .error halike⟩)

/-- A run of a stream. -/
theorem take_unplaced (count : Nat) (statements : Statements)
    (h : ∀ fault : Fault, .error (.fault fault) ∉ take count statements) :
    Forall₂ (Stop.Alike Stmt.unplaced) (take count statements)
      (take count statements.unplaced) := by
  induction count generalizing statements with
  | zero => exact .nil
  | succ count ih =>
    rw [take] at h ⊢
    rw [take]
    rcases next_unplaced statements with ⟨rest, hnext, hother⟩ | ⟨result, result', rest, hnext,
      hother, halike⟩ | ⟨fault, rest, hnext⟩
    · rw [hnext, hother]
      exact .nil
    · rw [hnext] at h
      rw [hnext, hother]
      exact .cons halike (ih rest fun fault hmem => h fault (mem_cons_of_mem _ hmem))
    · rw [hnext] at h
      exact absurd mem_cons_self (h fault)

end Statements

/-! ### Files -/

namespace Bracket

def Opened.unplaced (opened : Opened) : Opened := ⟨opened.bracket, .nowhere⟩

@[simp] theorem openedBy?_unplaced (token : Token) : openedBy? token.unplaced = openedBy? token :=
  rfl

@[simp] theorem closedBy?_unplaced (token : Token) : closedBy? token.unplaced = closedBy? token :=
  rfl

/-- The brackets that are open differ in their places only, so the same one is reported. -/
theorem checkFrom_unplaced (tokens : List Token) (opened : List Opened) :
    checkFrom (opened.map Opened.unplaced) (tokens.map unplaced) =
      (checkFrom opened tokens).mapError Error.unplaced := by
  induction tokens generalizing opened with
  | nil =>
    rw [map_nil, checkFrom, checkFrom, getLast?_map]
    cases opened.getLast? <;> rfl
  | cons token tokens ih =>
    rw [map_cons, checkFrom, checkFrom, openedBy?_unplaced, closedBy?_unplaced]
    cases openedBy? token with
    | some bracket => exact ih (⟨bracket, token.location⟩ :: opened)
    | none =>
      cases closedBy? token with
      | none => exact ih opened
      | some bracket =>
        cases opened with
        | nil => rfl
        | cons innermost opened =>
          rw [map_cons]
          change (if innermost.bracket = bracket then _ else _) =
            Except.mapError _ (if innermost.bracket = bracket then _ else _)
          split
          · exact ih opened
          · rfl

theorem check_unplaced (tokens : List Token) :
    check (tokens.map unplaced) = (check tokens).mapError Error.unplaced :=
  checkFrom_unplaced tokens []

end Bracket

/-- The statements of the tokens of a file. -/
def Program.ofTokens (tokens : List Token) : Except Stop Program := do
  Stop.ofError (Bracket.check tokens)
  parse (tokens.map .ok)

theorem Program.read_of_tokenize {source : String} (h : tokenize source = tokens.map .ok) :
    Program.read source = Program.ofTokens tokens := by
  have htokens : Program.tokens source = .ok tokens := by
    rw [Program.tokens, h, mapM_id_map_ok]
  rw [Program.read, htokens]
  rfl

/-- What a lexer yields is parsed the same without places: it never leads to a fault. -/
theorem parse_unplaced (h : Lexed (tokens.map .ok)) :
    Stop.Alike Program.unplaced (parse (tokens.map .ok))
      (parse ((tokens.map unplaced).map .ok)) := by
  have hitems : (Statements.mk (.ofItems (tokens.map .ok)) [] false).unplaced =
      { cursor := .ofItems ((tokens.map Token.unplaced).map .ok) } := by
    simp [Statements.unplaced, Cursor.unplaced, Cursor.ofItems, Item.unplaced, Function.comp_def,
      Except.mapError, Except.map]
  have hfaultless := Statements.ne_fault_of_mem_take h (Cursor.pending_ofItems _) (Nat.le_refl _)
  have htake := Statements.take_unplaced _ _ hfaultless
  rw [hitems] at htake
  rw [parse, parse, Statements.results_ofItems, Statements.results_ofItems]
  refine Alike.mapM ?_
  simpa [Cursor.ofItems] using htake

/-- **A file is read the same wherever its tokens stand.** -/
theorem Program.ofTokens_unplaced (h : Lexed (tokens.map .ok)) :
    Stop.Alike Program.unplaced (Program.ofTokens tokens)
      (Program.ofTokens (tokens.map Token.unplaced)) := by
  unfold Program.ofTokens
  rw [Bracket.check_unplaced]
  exact (Stop.Alike.ofError _).bind fun _ => parse_unplaced h

end FrontEnd
