/-!
# Locations

Where something stands in a program: on one line, from a column up to another. Lines count from
one, columns from zero, and columns count characters after tab expansion. A location without a
last column reaches to the end of its line.

Two locations are joined by `Location.between?`, which covers everything from the first to the
second. Nothing is covered by a pair whose second part stands on an earlier line than its first;
such a pair has no join.

A `Position` is a place between two characters. Reading a text moves it along
(`Position.advance`), and a text on one line turns it into a location (`Position.across`).
-/

namespace FrontEnd

/-- A stretch of one line. -/
structure Location where
  /-- The number of the line, starting with one. -/
  line : Nat
  /-- The first column covered. -/
  start : Nat
  /-- The column behind the last one covered, or nothing for the rest of the line. -/
  stop : Option Nat
deriving DecidableEq, Inhabited

namespace Location

/-- Everything from `start` to the end of the line. -/
def restOfLine (line start : Nat) : Location :=
  ⟨line, start, none⟩

/-- Everything from the start of `first` to the end of `last`, cut at the end of the line of
`first`. -/
def span (first last : Location) : Location :=
  if first.line < last.line then restOfLine first.line first.start
  else { first with stop := last.stop }

/-- Everything from the start of `first` to the end of `last`; there is nothing in between if
`last` is on a line before `first`. -/
def between? (first last : Location) : Option Location :=
  if last.line < first.line then none else some (first.span last)

/-- The three columns right behind `location`, where something is missing. -/
def missingAfter (location : Location) : Location :=
  let column := location.stop.getD location.start
  ⟨location.line, column, some (column + 3)⟩

/-- The place to point at when there is nothing to stand behind: the first three columns. -/
def missingAtStart : Location :=
  ⟨1, 0, some 3⟩

@[simp] theorem span_line (first last : Location) : (first.span last).line = first.line := by
  unfold span
  split <;> rfl

@[simp] theorem span_start (first last : Location) : (first.span last).start = first.start := by
  unfold span
  split <;> rfl

theorem between?_eq_some_iff {first last joined : Location} :
    first.between? last = some joined ↔ first.line ≤ last.line ∧ first.span last = joined := by
  unfold between?
  split
  · simp only [reduceCtorEq, false_iff]
    omega
  · simp only [Option.some.injEq]
    exact ⟨fun h => ⟨by omega, h⟩, fun h => h.2⟩

end Location

/-- A place between two characters of a text: the number of the line, and the number of characters
in front of it on that line. -/
structure Position where
  line : Nat := 1
  column : Nat := 0
deriving DecidableEq, Inhabited

namespace Position

/-- The place behind one character. -/
def after (position : Position) (c : Char) : Position :=
  if c = '\n' then ⟨position.line + 1, 0⟩ else ⟨position.line, position.column + 1⟩

/-- The place behind a text. -/
def advance (position : Position) (text : List Char) : Position :=
  text.foldl after position

/-- The stretch of the line that a text without newlines takes up. -/
def across (position : Position) (text : List Char) : Location :=
  ⟨position.line, position.column, some (position.column + text.length)⟩

@[simp] theorem advance_nil (position : Position) : position.advance [] = position := rfl

@[simp] theorem advance_append (position : Position) (front back : List Char) :
    position.advance (front ++ back) = (position.advance front).advance back := by
  simp [advance]

end Position

end FrontEnd
