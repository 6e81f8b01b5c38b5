import FrontEnd.Token.Basic

/-!
# Brackets

Braces and parentheses have to pair up: every opener has its own closer behind it, and what stands
between the two is balanced. `Bracket.check` reads the tokens of a program once, with a stack of the
brackets that are open, and reports the first place that cannot be mended by reading on. If
brackets are left open at the end, the outermost of them is reported.

Square brackets and all other tokens are passed over.
-/

namespace FrontEnd

/-- The two sorts of brackets that have to pair up. -/
inductive Bracket where
  | brace
  | parenthesis
deriving DecidableEq, Inhabited

namespace Bracket

/-- The character that opens a bracket. -/
def opener : Bracket → Char
  | brace => '\x7b'
  | parenthesis => '('

/-- The character that closes a bracket. -/
def closer : Bracket → Char
  | brace => '\x7d'
  | parenthesis => ')'

/-- The bracket that a token opens. -/
def openedBy? (token : Token) : Option Bracket :=
  if token.isOperator "\x7b" then some brace
  else if token.isOperator "(" then some parenthesis
  else none

/-- The bracket that a token closes. -/
def closedBy? (token : Token) : Option Bracket :=
  if token.isOperator "\x7d" then some brace
  else if token.isOperator ")" then some parenthesis
  else none

/-- A bracket that has been opened, and where. -/
structure Opened where
  bracket : Bracket
  location : Location
deriving DecidableEq, Inhabited

/-- Checks that the brackets of `tokens` close those that are open, innermost first, and leave
nothing open. -/
def checkFrom (opened : List Opened) : List Token → Except Error Unit
  | [] =>
    match opened.getLast? with
    | none => .ok ()
    | some outermost =>
      .error ((Cause.missingBrace outermost.bracket.closer).located outermost.location)
  | token :: tokens =>
    match openedBy? token with
    | some bracket => checkFrom (⟨bracket, token.location⟩ :: opened) tokens
    | none =>
      match closedBy? token with
      | none => checkFrom opened tokens
      | some bracket =>
        match opened with
        | [] => .error ((Cause.missingBrace bracket.opener).located token.location)
        | innermost :: opened =>
          if innermost.bracket = bracket then checkFrom opened tokens
          else .error ((Cause.mismatchedBrace innermost.bracket.closer).located token.location)

/-- Checks that the brackets of a program pair up. -/
def check (tokens : List Token) : Except Error Unit :=
  checkFrom [] tokens

end Bracket

end FrontEnd
