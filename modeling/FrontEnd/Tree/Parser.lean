import FrontEnd.Cursor
import FrontEnd.Tree.Basic

/-!
# From tokens to statements

The grammar, as actions on a cursor.

```text
list(x)     =  "(" ")"  |  "(" x { "," x } [ "," ] ")"
expression  =  primary { list(expression) }
primary     =  name | integer | string
block       =  "{" { statement } "}"
statement   =  expression ";"
            |  name "=" expression ";"
            |  name name ";"
            |  name name "=" expression ";"
            |  "if" expression block
            |  "return" expression ";"
            |  "function" name list(name name) [ "returns" name ] block
```

A name is any word that is not reserved. At most two tokens decide which form a statement has.

Expressions and statements nest. The actions `expressionWithin` and `statementWithin` have a bound
on the number of tokens to come as their first argument, and each level of nesting takes at least
one token. With a bound of zero there is no token left, so the file has ended.
-/

namespace FrontEnd

namespace Parse

variable {α : Type}

/-! ### Lists with commas -/

/-- The elements of a list up to `stop`, of which there is at least one. `rounds` bounds the number
of elements; where it is used up, no token is left. -/
def elements (stop : String) (element : Parse α) : Nat → List α → Parse (List α × Token)
  | 0, _ => endOfFile
  | rounds + 1, before => do
    let first ← comingUp 1
    if first.isOperator "," then
      fail (Cause.leadingComma.located first.location)
    let found := before ++ [← element]
    if (← comingUp 1).isOperator stop then
      return (found, ← pop)
    let comma ← expectOperator ","
    let next ← comingUp 1
    if next.isOperator "," then
      fail (Cause.doubleComma.located (← span comma.location next.location))
    if next.isOperator stop then
      return (found, ← pop)
    elements stop element rounds found

/-- A list between `start` and `stop`, with commas between the elements and possibly one behind the
last. Returns the elements and the token at the end. -/
def commaList (start stop : String) (element : Parse α) : Parse (List α × Token) := do
  let _ ← expectOperator start
  if (← comingUp 1).isOperator stop then
    return ([], ← pop)
  elements stop element (← size) []

/-! ### Expressions -/

/-- A word that can name something. -/
def name : Parse Name := do
  let token ← expect .name none
  if token.isReserved then
    fail ((Cause.reservedWord token.value).located token.location)
  return ⟨token.value, token.location⟩

/-- The text between the quotes of a string token. The quotes are one byte each, so there are none
around a text that starts or ends with a wider character. -/
def unquote? (value : String) : Option String :=
  match value.toList with
  | first :: second :: more =>
    let last := (second :: more).getLast (by simp)
    if first.utf8Size = 1 ∧ last.utf8Size = 1 then
      some (String.ofList (second :: more).dropLast)
    else none
  | _ => none

/-- An expression that is a single token. -/
def primary : Parse Expr := do
  let token ← comingUp 1
  match token.kind with
  | .name => return .name (← name)
  | .integer =>
    let token ← pop
    return .integer token.value token.location
  | .string =>
    let token ← pop
    match unquote? token.value with
    | some text => return .string text token.location
    | none => throw (.fault .unquotedString)
  | .operator => fail (Cause.expectedExpression.located token.location)

/-- The calls behind an expression. `rounds` bounds their number. -/
def calls (arguments : Parse (List Expr × Token)) : Nat → Expr → Parse Expr
  | 0, callee => return callee
  | rounds + 1, callee => do
    if ← nextIs .operator "(" then
      let (found, close) ← arguments
      calls arguments rounds (.call callee found (← span callee.location close.location))
    else
      return callee

/-- An expression, when no more than `left` tokens are left. -/
def expressionWithin : Nat → Parse Expr
  | 0 => endOfFile
  | left + 1 => do
    let first ← primary
    calls (commaList "(" ")" (expressionWithin left)) (← size) first

/-- An expression. -/
def expression : Parse Expr := do
  expressionWithin (← size)

/-! ### Statements -/

/-- What one statement of a program is read as: at least one statement, and a second one for a
declaration with a value. -/
structure Group where
  first : Stmt
  others : List Stmt := []

/-- The statements of a group. -/
def Group.toList (group : Group) : List Stmt :=
  group.first :: group.others

/-- An expression by itself. -/
def expressionStatement : Parse Stmt := do
  let value ← expression
  let semicolon ← expectOperator ";"
  return .expression value (← span value.location semicolon.location)

/-- An assignment to a variable. -/
def assignment : Parse Stmt := do
  let target ← name
  let _ ← expectOperator "="
  let value ← expression
  let semicolon ← expectOperator ";"
  return .assignment target value (← span target.location semicolon.location)

/-- A declaration of a variable, possibly with a value. -/
def declaration : Parse Group := do
  let type ← name
  let target ← name
  if (← comingUp 1).isOperator ";" then
    let semicolon ← pop
    return { first := .declaration type target.text (← span type.location semicolon.location) }
  let _ ← expectOperator "="
  let value ← expression
  let semicolon ← expectOperator ";"
  let declared := .declaration type target.text (← span type.location target.location)
  let assigned := .assignment target value (← span target.location semicolon.location)
  return { first := declared, others := [assigned] }

/-- The end of a function with a value. -/
def result : Parse Stmt := do
  let word ← expectWord "return"
  let value ← expression
  let semicolon ← expectOperator ";"
  return .result value (← span word.location semicolon.location)

/-- The statements up to a closing brace. `rounds` bounds their number. -/
def statementsToBrace (statement : Parse Group) : Nat → List Stmt → Parse (List Stmt)
  | 0, _ => endOfFile
  | rounds + 1, before => do
    if (← comingUp 1).isOperator "\x7d" then
      return before
    else
      let group ← statement
      statementsToBrace statement rounds (before ++ group.toList)

/-- Statements between braces. Returns them and the closing brace. -/
def block (statement : Parse Group) : Parse (List Stmt × Token) := do
  let _ ← expectOperator "\x7b"
  let body ← statementsToBrace statement (← size) []
  return (body, ← pop)

/-- A condition and a block. -/
def conditional (statement : Parse Group) : Parse Stmt := do
  let word ← expectWord "if"
  let condition ← expression
  let (body, close) ← block statement
  return .conditional condition body (← span word.location close.location)

/-- A type and a name. -/
def parameter : Parse Parameter := do
  let type ← name
  return ⟨type, ← name⟩

/-- A function with its parameters, the type of its value if it has one, and its body. -/
def function (statement : Parse Group) : Parse Stmt := do
  let word ← expectWord "function"
  let name ← name
  let (parameters, _) ← commaList "(" ")" parameter
  let returnType ←
    if (← comingUp 1).is .name "returns" then do
      let _ ← pop
      pure (some (← Parse.name))
    else
      pure none
  let (body, close) ← block statement
  return .function name.text parameters returnType body (← span word.location close.location)

/-- A statement without a leading word of its own: the token behind the first tells a declaration
from an assignment from an expression. -/
def plainStatement : Parse Group := do
  match ← unlessEnded none (some <$> comingUp 2) with
  | some second =>
    if second.isOperator "=" then
      return { first := ← assignment }
    else if second.kind = .name then
      declaration
    else
      return { first := ← expressionStatement }
  | none => return { first := ← expressionStatement }

/-- A statement, when no more than `left` tokens are left. -/
def statementWithin : Nat → Parse Group
  | 0 => endOfFile
  | left + 1 => do
    let first ← comingUp 1
    if first.kind = .name then
      if first.value = "return" then
        return { first := ← result }
      else if first.value = "if" then
        return { first := ← conditional (statementWithin left) }
      else if first.value = "function" then
        return { first := ← function (statementWithin left) }
      else
        plainStatement
    else
      return { first := ← expressionStatement }

/-- A statement. -/
def statement : Parse Group := do
  statementWithin (← size)

end Parse

end FrontEnd
