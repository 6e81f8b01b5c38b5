/-!
# Lines

A newline ends a line, and a carriage return right before it belongs to the line break. What stands
behind the last newline is one more line unless it is empty; a carriage return at its end is part
of it, since no newline follows.
-/

namespace FrontEnd.Text

/-- The lines of a text, without their line breaks. -/
def lines : List Char → List (List Char)
  | [] => []
  | '\r' :: '\n' :: text => [] :: lines text
  | '\n' :: text => [] :: lines text
  | c :: text =>
    match lines text with
    | [] => [[c]]
    | line :: rest => (c :: line) :: rest

/-- The line with the given number, which is empty if the text has no such line. The first line
has number one, and zero stands for it too. -/
def lineNumbered (number : Nat) (text : String) : String :=
  String.ofList ((lines text.toList).getD (number - 1) [])

end FrontEnd.Text
