import FrontEnd.Text.Quoted
import FrontEnd.Tree.Basic

/-!
# Dumps of programs

A program can be printed in full, every part with its label and its place. A `Dump` is such a print
before its layout: texts, labelled parts, records and lists. In the layout every part has a line of
its own, four columns further in than what it belongs to, and a comma behind it.
-/

namespace FrontEnd

/-- A print of some data, without its layout. -/
inductive Dump where
  /-- Something that is printed as it is. -/
  | text (text : String)
  /-- A part with a label, between parentheses. -/
  | tagged (label : String) (content : Dump)
  /-- A part of a record. -/
  | field (label : String) (content : Dump)
  /-- Parts between braces. -/
  | record (label : String) (fields : List Dump)
  /-- Parts between square brackets. -/
  | list (items : List Dump)
deriving Inhabited

namespace Dump

/-- The blanks in front of a line. -/
def margin (depth : Nat) : String :=
  String.ofList (List.replicate (4 * depth) ' ')

mutual

/-- The layout of a dump that starts somewhere in a line at the given depth. -/
def layout (depth : Nat) : Dump → String
  | text shown => shown
  | field label content => label ++ ": " ++ layout depth content
  | tagged label content =>
    label ++ "(\n" ++ margin (depth + 1) ++ layout (depth + 1) content ++ ",\n" ++
      margin depth ++ ")"
  | record label fields =>
    label ++ " \x7b\n" ++ layoutLines (depth + 1) fields ++ margin depth ++ "\x7d"
  | list [] => "[]"
  | list (item :: items) =>
    "[\n" ++ layoutLines (depth + 1) (item :: items) ++ margin depth ++ "]"

/-- The layout of parts that have a line each. -/
def layoutLines (depth : Nat) : List Dump → String
  | [] => ""
  | item :: items => margin depth ++ layout depth item ++ ",\n" ++ layoutLines depth items

end

/-- A number. -/
def ofNat (n : Nat) : Dump :=
  text (toString n)

/-- A quoted text. -/
def ofString (value : String) : Dump :=
  text (Text.Quoted.quote value)

/-- Something that may be missing. -/
def ofOption {α : Type} (dump : α → Dump) : Option α → Dump
  | some value => tagged "Some" (dump value)
  | none => text "None"

/-- A place. -/
def ofLocation (location : Location) : Dump :=
  record "Location"
    [field "line" (ofNat location.line), field "start" (ofNat location.start),
      field "end" (ofOption ofNat location.stop)]

/-- The place of what a record is about. -/
def locationField (location : Location) : Dump :=
  field "location" (ofLocation location)

/-- A use of a name. -/
def ofName (name : Name) : Dump :=
  record "NameExpr" [field "name" (ofString name.text), locationField name.location]

mutual

/-- An expression. -/
def ofExpr : Expr → Dump
  | .name name => tagged "Name" (ofName name)
  | .integer digits location =>
    tagged "Integer"
      (record "IntegerExpr" [field "value" (ofString digits), locationField location])
  | .string value location =>
    tagged "String"
      (record "StringExpr" [field "value" (ofString value), locationField location])
  | .call function arguments location =>
    tagged "Call"
      (record "CallExpr"
        [field "function" (ofExpr function), field "args" (list (ofExprs arguments)),
          locationField location])

/-- A list of expressions. -/
def ofExprs : List Expr → List Dump
  | [] => []
  | expression :: expressions => ofExpr expression :: ofExprs expressions

end

/-- A parameter of a function. -/
def ofParameter (parameter : Parameter) : Dump :=
  record "Parameter"
    [field "var_type" (ofName parameter.type), field "name" (ofName parameter.name)]

mutual

/-- A statement. -/
def ofStmt : Stmt → Dump
  | .expression expression location =>
    tagged "Expression"
      (record "ExpressionStmt"
        [field "expression" (ofExpr expression), locationField location])
  | .declaration type name location =>
    tagged "Declaration"
      (record "DeclarationStmt"
        [field "var_type" (ofName type), field "name" (ofString name), locationField location])
  | .assignment target value location =>
    tagged "Assignment"
      (record "AssignmentStmt"
        [field "target" (ofName target), field "value" (ofExpr value), locationField location])
  | .conditional condition body location =>
    tagged "If"
      (record "IfStmt"
        [field "condition" (ofExpr condition), field "body" (list (ofStmts body)),
          locationField location])
  | .result value location =>
    tagged "Return"
      (record "ReturnStmt" [field "value" (ofExpr value), locationField location])
  | .function name parameters returnType body location =>
    tagged "FunctionDef"
      (record "FunctionDefStmt"
        [field "name" (ofString name), field "parameters" (list (parameters.map ofParameter)),
          field "return_type" (ofOption ofName returnType), field "body" (list (ofStmts body)),
          locationField location])
  | .retain name location =>
    tagged "IncRef" (record "IncRefStmt" [field "name" (ofString name), locationField location])
  | .release name location =>
    tagged "DecRef" (record "DecRefStmt" [field "name" (ofString name), locationField location])

/-- A list of statements. -/
def ofStmts : List Stmt → List Dump
  | [] => []
  | stmt :: block => ofStmt stmt :: ofStmts block

end

end Dump

/-- A program, printed in full. -/
def Program.dump (program : Program) : String :=
  (Dump.list (Dump.ofStmts program)).layout 0

end FrontEnd
