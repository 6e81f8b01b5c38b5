import FrontEnd.Diagnostic.Error

/-!
# Stopping

Reading tokens stops for one of two reasons. The program is wrong, and there is an error to show; or
the tokens themselves are not what a lexer yields, and there is nothing that could be said about
the program. The second reason is a fault: it is kept apart from errors, so that it can be shown
that no text of a program leads to one.
-/

namespace FrontEnd

/-- A promise about the tokens, or about the use of them, that was not kept. -/
inductive Fault where
  /-- Something ends on a line before the one it starts on. -/
  | backwardSpan
  /-- A look further ahead than is ever needed, or at nothing. -/
  | lookahead
  /-- A string that does not stand between two quotes. -/
  | unquotedString
deriving DecidableEq, Inhabited

/-- Why reading stopped. -/
inductive Stop where
  | error (error : Error)
  | fault (fault : Fault)
deriving DecidableEq, Inhabited

end FrontEnd
