import FrontEnd.Tree.Parser

/-!
# Streams of statements

A program is read statement by statement. `Statements.next` reads no further than the statement that
it yields needs, so that everything before an error is yielded before the error. After an error, and
after the end, nothing is yielded.

`Statements.results` lists everything that is yielded, and `parse` returns all statements of a
stream of tokens, or what stopped it.
-/

namespace FrontEnd

/-- A stream of statements: a cursor, and the statements that were read with an earlier one. -/
structure Statements where
  cursor : Cursor
  pending : List Stmt := []
  finished : Bool := false

namespace Statements

/-- The statements of a stream of tokens. -/
def ofItems (items : List Item) : Statements :=
  { cursor := .ofItems items }

/-- One statement, or nothing at the end. An end of file inside of the statement is reported behind
the token taken last. -/
def read : Parse (Option Parse.Group) :=
  Parse.relocating do
    if ← Parse.atEnd then return none
    else return some (← Parse.statement)

/-- The next statement or what stopped it, or nothing at the end, and the rest of the stream. -/
def next (statements : Statements) : Option (Except Stop Stmt) × Statements :=
  match statements.pending with
  | stmt :: pending => (some (.ok stmt), { statements with pending := pending })
  | [] =>
    if statements.finished then (none, statements)
    else
      match read statements.cursor with
      | .ok none cursor => (none, { cursor := cursor, finished := true })
      | .ok (some group) cursor =>
        (some (.ok group.first), { cursor := cursor, pending := group.others })
      | .error stop cursor => (some (.error stop), { cursor := cursor, finished := true })

/-- The first `count` results, or all of them if there are fewer. -/
def take : Nat → Statements → List (Except Stop Stmt)
  | 0, _ => []
  | count + 1, statements =>
    match statements.next with
    | (none, _) => []
    | (some result, rest) => result :: take count rest

/-- Everything that is yielded. A statement takes at least one token, and so does what stops the
stream, so there are no more results than tokens. -/
def results (statements : Statements) : List (Except Stop Stmt) :=
  statements.take (statements.pending.length + statements.cursor.size)

end Statements

/-- All statements of a stream of tokens, or what stopped it. -/
def parse (items : List Item) : Except Stop Program :=
  (Statements.ofItems items).results.mapM id

/-- The one expression that a stream of tokens consists of. Anything behind it is reported as a
missing semicolon. -/
def parseExpression (items : List Item) : Except Stop Expr :=
  let whole : Parse Expr := do
    let expression ← Parse.relocating Parse.expression
    unless ← Parse.atEnd do
      let extra ← Parse.pop
      Parse.fail ((Cause.expectedValue ";").located extra.location)
    return expression
  match whole (.ofItems items) with
  | .ok expression _ => .ok expression
  | .error stop _ => .error stop

end FrontEnd
