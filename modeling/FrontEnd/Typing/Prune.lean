import FrontEnd.Tree.Basic

/-!
# Removing a variable from a block

A variable that nothing reads can go: its declaration, and every assignment to it behind the
declaration. A call on the right of an assignment stays as a statement of its own, since it may have
effects. A later declaration of the same name starts another variable, which is left alone to the
end of the block it stands in.
-/

namespace FrontEnd

/-- The place of a call that was the value of an assignment: from the call to the end of the
assignment if both are on one line. -/
def Location.ofBareCall (call assignment : Location) : Location :=
  if call.line = assignment.line then call.span assignment else call

/-- What is left of the assignment of `value` when its target goes. -/
def Stmt.ofBareValue (value : Expr) (location : Location) : List Stmt :=
  if value.isCall then [.expression value (value.location.ofBareCall location)] else []

mutual

/-- What is left of a statement without assignments to `name`. -/
def Stmt.withoutAssignments (name : String) : Stmt → List Stmt
  | .assignment target value location =>
    if target.text = name then Stmt.ofBareValue value location
    else [.assignment target value location]
  | .conditional condition body location =>
    [.conditional condition (removeAssignments name body) location]
  | stmt => [stmt]

/-- A block without assignments to `name`, up to the next declaration of it. -/
def removeAssignments (name : String) : List Stmt → List Stmt
  | [] => []
  | stmt :: block =>
    if stmt.declares name then stmt :: block
    else stmt.withoutAssignments name ++ removeAssignments name block

end

/-- A block without the first declaration of `name` and without the assignments to that variable. -/
def removeVariable (name : String) : List Stmt → List Stmt
  | [] => []
  | stmt :: block =>
    if stmt.declares name then removeAssignments name block
    else stmt :: removeVariable name block

end FrontEnd
