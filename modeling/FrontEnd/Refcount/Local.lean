import FrontEnd.Tree.Basic

/-!
# Counted variables

Integers and strings live on the heap, and every reference to them is counted. A variable that owns
its reference has to release it once, when the body ends that it belongs to. The variables of a
function are kept in *frames*, one for each open body, innermost first and newest first, which is
the order in which they are released.
-/

namespace FrontEnd.Refcount

/-- Whether the values of a type are counted. -/
def isHeap (type : String) : Bool :=
  type = "Int" || type = "String"

/-- A variable of the function at hand. -/
structure Local where
  name : String
  /-- The name of its type. -/
  type : String
  /-- Where it was declared, and where releasing it is reported. -/
  location : Location
  /-- Whether it has a reference of its own. A parameter borrows the one of the caller, unless it
  gets a new value. -/
  owned : Bool := true
deriving DecidableEq, Inhabited

namespace Local

/-- Whether a variable has a reference to release. -/
def isCounted (v : Local) : Bool :=
  v.owned && isHeap v.type

/-- A use of a variable. -/
def use (v : Local) : Expr :=
  .name ⟨v.name, v.location⟩

/-- The release of a variable. -/
def release (v : Local) : Stmt :=
  .release v.name v.location

end Local

/-- The releases of those of some variables that have a reference. -/
def releases (locals : List Local) : List Stmt :=
  (locals.filter Local.isCounted).map Local.release

/-- The variables of a function: a list for each open body, innermost and newest first. -/
abbrev Frames := List (List Local)

namespace Frames

/-- The variable that a name stands for. -/
def lookup (frames : Frames) (name : String) : Option Local :=
  frames.flatten.find? (·.name = name)

/-- Adds a variable to the innermost body. -/
def declare (frames : Frames) (v : Local) : Frames :=
  match frames with
  | [] => []
  | frame :: outer => (v :: frame) :: outer

/-- The releases at the end of the innermost body. -/
def releaseInnermost (frames : Frames) : List Stmt :=
  releases (frames.headD [])

/-- The releases at the end of the function, without the variable that `keep` stands for. -/
def releaseAll (frames : Frames) (keep : Option String) : List Stmt :=
  match keep with
  | none => releases frames.flatten
  | some name => releases (frames.flatten.eraseP (·.name = name))

end Frames

/-- A temporary, and the value that it is given. -/
structure Temp where
  place : Local
  value : Expr

namespace Temp

/-- Whether the value is copied from another variable, so that there is one more reference to it. -/
def isCopy (temp : Temp) : Bool :=
  match temp.value with
  | .name _ => isHeap temp.place.type
  | _ => false

/-- The statements that declare a temporary and give it its value. -/
def setup (temp : Temp) : List Stmt :=
  let location := temp.place.location
  [.declaration ⟨temp.place.type, location⟩ temp.place.name location,
    .assignment ⟨temp.place.name, location⟩ temp.value location] ++
    if temp.isCopy then [.retain temp.place.name location] else []

/-- A use of a temporary. -/
def use (temp : Temp) : Expr :=
  temp.place.use

/-- The release of a temporary. -/
def release (temp : Temp) : Stmt :=
  temp.place.release

end Temp

end FrontEnd.Refcount
