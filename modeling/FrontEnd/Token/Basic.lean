import FrontEnd.Diagnostic.Error
import FrontEnd.Text.Quoted

/-!
# Tokens

The words of a program: integers, names, strings and operators, each with the text it was written
as and the place where it stands. A stream of tokens is a list of items, and an item is a token or
the error that was found in its place.
-/

namespace FrontEnd

/-- The four sorts of tokens. -/
inductive Token.Kind where
  | integer
  | name
  | string
  | operator
deriving DecidableEq, Inhabited

namespace Token.Kind

/-- The noun for a kind in a message. -/
def noun : Kind → String
  | integer => "integer"
  | name => "name"
  | string => "string"
  | operator => "operator"

/-- The label of a kind in a listing of tokens. -/
def label : Kind → String
  | integer => "Integer"
  | name => "Name"
  | string => "String"
  | operator => "Op"

end Token.Kind

/-- A word of a program. -/
structure Token where
  kind : Token.Kind
  /-- The text as it was written; a string has its quotes. -/
  value : String
  location : Location
deriving DecidableEq, Inhabited

namespace Token

/-- The names with a meaning of their own, which no variable can have. -/
def reservedWords : List String :=
  ["return", "if", "function", "returns"]

/-- Whether a token has the given kind and text. -/
def is (token : Token) (kind : Kind) (value : String) : Bool :=
  token.kind == kind && token.value == value

/-- Whether a token is the given operator. -/
def isOperator (token : Token) (value : String) : Bool :=
  token.is .operator value

/-- Whether a token is one of the reserved words. -/
def isReserved (token : Token) : Bool :=
  token.kind == .name && reservedWords.contains token.value

/-- A token in a listing: its kind and its quoted text. -/
def listing (token : Token) : String :=
  token.kind.label ++ " " ++ Text.Quoted.quote token.value

theorem is_eq_true_iff {token : Token} {kind : Kind} {value : String} :
    token.is kind value = true ↔ token.kind = kind ∧ token.value = value := by
  simp [is]

end Token

/-- One item of a stream of tokens: a token, or the error found in its place. -/
abbrev Item := Except Error Token

end FrontEnd
