import FrontEnd.Location
import FrontEnd.Text.Blank
import FrontEnd.Text.Line
import FrontEnd.Text.Tab

/-!
# Diagnostics with an excerpt of the program

A diagnostic is shown with the line it is about, and with carets under the part that it points at.
The line is shown without its indentation, and the carets never leave what is shown.

A line of blanks only has nothing to point at: all of it is indentation. `excerpt?` has no answer
for it.
-/

namespace FrontEnd

/-- A line as it is shown: tabs expanded, line break and trailing blanks gone, and the indentation
counted apart from the rest. -/
structure ShownLine where
  /-- The number of blanks in front. -/
  indent : Nat
  /-- The number of columns up to the last character that is not blank. -/
  width : Nat
  /-- The text between indentation and trailing blanks. -/
  text : List Char
deriving DecidableEq, Inhabited

namespace ShownLine

/-- A line of code without the line break at its end. -/
def withoutBreak (line : List Char) : List Char :=
  (line.reverse.dropWhile fun c => c = '\n' ∨ c = '\r').reverse

/-- The shown form of a line of code. -/
def ofLine (line : List Char) : ShownLine :=
  let expanded := Text.expandTabsFrom 0 (withoutBreak line)
  let stripped := Text.trimStart expanded
  { indent := expanded.length - stripped.length
    width := (Text.trimEnd expanded).length
    text := Text.trimEnd stripped }

/-- The first column that is marked for `location`: at least the indentation, at most the end of
the text. -/
def markStart (line : ShownLine) (location : Location) : Nat :=
  min (max location.start line.indent) line.width

/-- The column behind the last one marked for `location`. -/
def markStop (line : ShownLine) (location : Location) : Nat :=
  max (min (location.stop.getD line.width) line.width) (line.markStart location)

/-- The text and the carets below it. There are none for a line that is all indentation. -/
def marked? (line : ShownLine) (location : Location) : Option (List Char × List Char) :=
  let start := line.markStart location
  if start < line.indent then none
  else
    some (line.text, List.replicate (start - line.indent) ' ' ++
      List.replicate (line.markStop location - start) '^')

end ShownLine

/-- A diagnostic of the given sort (such as "error") about a file. With a location it is followed by
the line of code that the location is on, and by carets under the part that is meant. -/
def excerpt? (sort fileName message : String) (location : Option Location) (line : String) :
    Option String :=
  match location with
  | none => some s!"{sort} in file '{fileName}': {message}"
  | some location =>
    ((ShownLine.ofLine line.toList).marked? location).map fun (text, marks) =>
      let code := String.ofList text
      let carets := String.ofList marks
      s!"{sort} in file '{fileName}', line {location.line}: {message}\n  {code}\n  {carets}"

end FrontEnd
