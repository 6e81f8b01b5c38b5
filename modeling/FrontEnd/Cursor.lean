import FrontEnd.Diagnostic.Stop
import FrontEnd.Text.Article
import FrontEnd.Token.Basic

/-!
# Cursors

A cursor stands between two tokens of a stream. It takes tokens (`pop`) and looks at those to come
(`comingUp`), at most `maxLookahead` of them. Items are pulled from the stream only when they are
looked at, so that an error in the stream shows when reading reaches it, and not before; it shows
once, and then is gone.

The operations are actions of the monad `Parse`. An action that fails still leaves a cursor behind:
what was pulled or taken before the failure stays pulled or taken.
-/

namespace FrontEnd

/-- A place in a stream of tokens. -/
structure Cursor where
  /-- The tokens that have been looked at and not been taken. -/
  ahead : List Token := []
  /-- The items that have not been pulled. -/
  rest : List Item
  /-- The token taken last. -/
  last : Option Token := none

namespace Cursor

/-- The cursor in front of a stream. -/
def ofItems (items : List Item) : Cursor :=
  { rest := items }

/-- The number of items that have not been taken. -/
def size (cursor : Cursor) : Nat :=
  cursor.ahead.length + cursor.rest.length

/-- Moves an end of file to the place right behind the token taken last. Other errors stay where
they are. -/
def relocate (cursor : Cursor) (error : Error) : Error :=
  if error.isEndOfFile then
    Cause.unexpectedEndOfFile.located
      ((cursor.last.map fun token => token.location.missingAfter).getD Location.missingAtStart)
  else error

end Cursor

/-- Actions on a cursor. An action that stops leaves the cursor where it got to. -/
abbrev Parse := EStateM Stop Cursor

namespace Parse

variable {α : Type}

/-- Stops with an error. -/
def fail (error : Error) : Parse α :=
  throw (.error error)

/-- Stops because there are no more tokens. -/
def endOfFile : Parse α :=
  fail (Cause.unexpectedEndOfFile.unlocated)

/-- Everything from `first` to `last`, which must not stand on an earlier line. -/
def span (first last : Location) : Parse Location :=
  match first.between? last with
  | some location => pure location
  | none => throw (.fault .backwardSpan)

/-- The number of items that have not been taken. -/
def size : Parse Nat := do
  return (← get).size

/-- Pulls one item from the stream. A token is put behind those that have been looked at, an error
ends the action. -/
def pull : Parse Unit := fun cursor =>
  match cursor.rest with
  | [] => endOfFile cursor
  | .error error :: rest => fail error { cursor with rest := rest }
  | .ok token :: rest => .ok () { cursor with ahead := cursor.ahead ++ [token], rest := rest }

/-- Pulls the given number of items. -/
def pullMany : Nat → Parse Unit
  | 0 => pure ()
  | count + 1 => do
    pull
    pullMany count

/-- Pulls items until `count` tokens have been looked at. -/
def fill (count : Nat) : Parse Unit := do
  pullMany (count - (← get).ahead.length)

/-- The number of tokens that are ever looked at in advance. -/
def maxLookahead : Nat := 2

/-- The `n`th token to come, counted from one. -/
def comingUp (n : Nat) : Parse Token := do
  if n = 0 ∨ maxLookahead < n then
    throw (.fault .lookahead)
  fill n
  match (← get).ahead[n - 1]? with
  | some token => return token
  | none => endOfFile

/-- Takes the next token. -/
def pop : Parse Token := do
  fill 1
  let cursor ← get
  match cursor.ahead with
  | [] => endOfFile
  | token :: ahead =>
    set { cursor with ahead := ahead, last := some token }
    return token

/-- The result of an action, or `ended` if there were no more tokens. -/
def unlessEnded (ended : α) (action : Parse α) : Parse α := fun cursor =>
  match action cursor with
  | .error (.error error) after =>
    if error.isEndOfFile then .ok ended after else fail error after
  | outcome => outcome

/-- An action whose end of file, if it fails with one, is moved behind the token taken last. -/
def relocating (action : Parse α) : Parse α := fun cursor =>
  match action cursor with
  | .error (.error error) after => fail (after.relocate error) after
  | outcome => outcome

/-- Whether the next token has the given kind and text. There may be no next token. -/
def nextIs (kind : Token.Kind) (value : String) : Parse Bool :=
  unlessEnded false do return (← comingUp 1).is kind value

/-- Whether all tokens have been taken. -/
def atEnd : Parse Bool :=
  unlessEnded true do
    let _ ← comingUp 1
    return false

/-- Takes a token that has to have the given kind, and the given text if there is one. A wrong text
is reported before a wrong kind. -/
def expect (kind : Token.Kind) (value : Option String) : Parse Token := do
  let token ← comingUp 1
  if let some value := value then
    if token.value ≠ value then
      fail ((Cause.expectedValue value).located token.location)
  if token.kind ≠ kind then
    fail ((Cause.expectedKind (Text.withArticle kind.noun)).located token.location)
  pop

/-- Takes the given operator. -/
def expectOperator (value : String) : Parse Token :=
  expect .operator (some value)

/-- Takes the given word. -/
def expectWord (value : String) : Parse Token :=
  expect .name (some value)

end Parse

end FrontEnd
