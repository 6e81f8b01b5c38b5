/-!
# Tab stops

Columns are counted after tabs have been replaced by spaces. A tab reaches to the next multiple of
`tabWidth`; a newline and a carriage return start again at column zero, and every other character
is one column wide.
-/

namespace FrontEnd.Text

/-- The distance between two tab stops. -/
def tabWidth : Nat := 4

/-- The number of spaces from `column` to the next tab stop, at least one. -/
def spacesToStop (column : Nat) : Nat :=
  tabWidth - column % tabWidth

/-- The column behind the character `c` that stands at `column` and is not a tab. -/
def columnAfter (column : Nat) (c : Char) : Nat :=
  if c = '\n' ∨ c = '\r' then 0 else column + 1

/-- The characters of a text that starts at `column`, with spaces for tabs. -/
def expandTabsFrom (column : Nat) : List Char → List Char
  | [] => []
  | c :: text =>
    if c = '\t' then
      List.replicate (spacesToStop column) ' ' ++
        expandTabsFrom (column + spacesToStop column) text
    else
      c :: expandTabsFrom (columnAfter column c) text

/-- A text with spaces for tabs. -/
def expandTabs (text : String) : String :=
  String.ofList (expandTabsFrom 0 text.toList)

@[simp] theorem expandTabsFrom_nil (column : Nat) : expandTabsFrom column [] = [] := rfl

theorem expandTabsFrom_tab (column : Nat) (text : List Char) :
    expandTabsFrom column ('\t' :: text) =
      List.replicate (spacesToStop column) ' ' ++
        expandTabsFrom (column + spacesToStop column) text := by
  simp [expandTabsFrom]

theorem expandTabsFrom_cons {c : Char} (hc : c ≠ '\t') (column : Nat) (text : List Char) :
    expandTabsFrom column (c :: text) = c :: expandTabsFrom (columnAfter column c) text := by
  simp [expandTabsFrom, hc]

theorem spacesToStop_pos (column : Nat) : 0 < spacesToStop column := by
  have := Nat.mod_lt column (show 0 < tabWidth by decide)
  simp only [spacesToStop]
  omega

@[simp] theorem toList_expandTabs (text : String) :
    (expandTabs text).toList = expandTabsFrom 0 text.toList := by
  simp [expandTabs]

end FrontEnd.Text
