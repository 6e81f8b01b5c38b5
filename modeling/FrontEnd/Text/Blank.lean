import FrontEnd.Text.CodeRange

/-!
# Blank characters

The white space of Unicode: the characters that separate words without being part of any. Trimming
a text drops its blanks at the front or at the back.
-/

namespace FrontEnd.Text

/-- The code points of white space: tab to carriage return, the space, the next-line control, the
no-break space and the spaces of the typesetters, and the line and paragraph separators. -/
def blankRanges : List CodeRange :=
  [(0x9, 0xD), (0x20, 0x20), (0x85, 0x85), (0xA0, 0xA0), (0x1680, 0x1680), (0x2000, 0x200A),
  (0x2028, 0x2029), (0x202F, 0x202F), (0x205F, 0x205F), (0x3000, 0x3000)]

/-- Whether a character is white space. -/
def isBlank (c : Char) : Bool :=
  CodeRange.covers blankRanges c.toNat

/-- A text without the blanks at its front. -/
def trimStart (text : List Char) : List Char :=
  text.dropWhile isBlank

/-- A text without the blanks at its back. -/
def trimEnd (text : List Char) : List Char :=
  (text.reverse.dropWhile isBlank).reverse

end FrontEnd.Text
