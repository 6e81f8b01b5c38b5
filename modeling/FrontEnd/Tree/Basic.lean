import FrontEnd.Location

/-!
# Programs as trees

Expressions and statements, each with the place where it stands. A program is a list of statements.
A declaration with a value is two statements, a declaration and an assignment.

`retain` and `release` are not written by anyone: they count references, and only making the counts
explicit puts them into a program.
-/

namespace FrontEnd

/-- A name of a variable, a function or a type, at one of its uses. -/
structure Name where
  text : String
  location : Location
deriving DecidableEq, Inhabited

/-- Expressions. Calls nest: the result of a call can be called. -/
inductive Expr where
  | name (name : Name)
  /-- An integer, by its digits as they were written. -/
  | integer (digits : String) (location : Location)
  /-- A string without its quotes. -/
  | string (text : String) (location : Location)
  | call (function : Expr) (arguments : List Expr) (location : Location)
deriving Inhabited

namespace Expr

/-- Where an expression stands. -/
def location : Expr → Location
  | .name n => n.location
  | .integer _ location => location
  | .string _ location => location
  | .call _ _ location => location

/-- Whether an expression is a call, and so can have an effect. -/
def isCall : Expr → Bool
  | .call .. => true
  | _ => false

end Expr

/-- One parameter of a function: its type and its name. -/
structure Parameter where
  type : Name
  name : Name
deriving DecidableEq, Inhabited

/-- Statements. -/
inductive Stmt where
  | expression (expression : Expr) (location : Location)
  | declaration (type : Name) (name : String) (location : Location)
  | assignment (target : Name) (value : Expr) (location : Location)
  /-- A body that is run if a condition holds. -/
  | conditional (condition : Expr) (body : List Stmt) (location : Location)
  /-- The end of a function, with its value. -/
  | result (value : Expr) (location : Location)
  | function (name : String) (parameters : List Parameter) (returnType : Option Name)
      (body : List Stmt) (location : Location)
  /-- One more reference to what a variable holds. -/
  | retain (name : String) (location : Location)
  /-- One reference less to what a variable holds. -/
  | release (name : String) (location : Location)
deriving Inhabited

namespace Stmt

/-- Where a statement stands. -/
def location : Stmt → Location
  | .expression _ location => location
  | .declaration _ _ location => location
  | .assignment _ _ location => location
  | .conditional _ _ location => location
  | .result _ location => location
  | .function _ _ _ _ location => location
  | .retain _ location => location
  | .release _ location => location

/-- Whether a statement declares the given name. -/
def declares (name : String) : Stmt → Bool
  | .declaration _ declared _ => declared = name
  | _ => false

end Stmt

/-- A program: its statements in their order. -/
abbrev Program := List Stmt

/-- Whether the last statement of a body is the end of its function. -/
def endsWithResult (body : List Stmt) : Bool :=
  match body.getLast? with
  | some (.result ..) => true
  | _ => false

/-- The definition of a function. -/
structure FunctionDef where
  name : String
  parameters : List Parameter
  /-- The type of the value, if the function has one. -/
  returnType : Option Name
  body : List Stmt
  location : Location
deriving Inhabited

/-- A definition as a statement. -/
def FunctionDef.toStmt (function : FunctionDef) : Stmt :=
  .function function.name function.parameters function.returnType function.body
    function.location

/-- The definition that a statement is. -/
def Stmt.toFunctionDef? : Stmt → Option FunctionDef
  | .function name parameters returnType body location =>
    some ⟨name, parameters, returnType, body, location⟩
  | _ => none

@[simp] theorem FunctionDef.toFunctionDef?_toStmt (function : FunctionDef) :
    function.toStmt.toFunctionDef? = some function := rfl

theorem Stmt.toFunctionDef?_eq_some_iff {stmt : Stmt} {function : FunctionDef} :
    stmt.toFunctionDef? = some function ↔ stmt = function.toStmt := by
  constructor
  · intro h
    cases stmt <;> simp_all [toFunctionDef?, FunctionDef.toStmt]
    subst h
    simp
  · rintro rfl
    rfl

end FrontEnd
