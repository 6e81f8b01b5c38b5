import FrontEnd.Text.Printable

/-!
# Quoted text

A text between double quotes, such that each character is visible: quotes, backslashes and the
common controls have a short escape, and any other character that cannot be shown by itself is
written as its code point in hexadecimal.
-/

namespace FrontEnd.Text.Quoted

/-- A character by its code point, in lower-case hexadecimal between braces. -/
def codePoint (c : Char) : List Char :=
  ['\\', 'u', '\x7b'] ++ Nat.toDigits 16 c.toNat ++ ['\x7d']

/-- The written form of one character of a quoted text. -/
def escape (c : Char) : List Char :=
  if c = '\x00' then ['\\', '0']
  else if c = '\t' then ['\\', 't']
  else if c = '\r' then ['\\', 'r']
  else if c = '\n' then ['\\', 'n']
  else if c = '"' then ['\\', '"']
  else if c = '\\' then ['\\', '\\']
  else if isPrintable c then [c]
  else codePoint c

/-- A text between double quotes. -/
def quote (text : String) : String :=
  String.ofList ('"' :: text.toList.flatMap escape ++ ['"'])

end FrontEnd.Text.Quoted
