import FrontEnd.Diagnostic.Error
import FrontEnd.Diagnostic.Warning
import FrontEnd.Typing.Prune
import FrontEnd.Typing.Type

/-!
# Scopes

A scope is a chain of levels, innermost first: the built-in names, the functions of the file, and
one level for each body that is open. A name means the innermost variable of that name
(`Scope.lookup`), and a declaration always adds to the innermost level.

While a body is checked, only its own level changes. What it does to variables further out, reading
them or giving them a value, is noted as *effects* at its own level, and handed on to the next level
when the body is finished (`Scope.apply`). Until then a variable counts as having a value if it has
one at its own level, or if some level further in has noted that it gets one
(`Scope.isInitialized`).
-/

namespace FrontEnd

/-- What a level of a scope belongs to. -/
inductive ScopeKind where
  /-- The names that every program has. -/
  | builtin
  /-- The functions of the file. -/
  | file
  /-- The body of a function or of a condition. -/
  | inner
deriving DecidableEq, Inhabited

/-- The kind of the next level further in. -/
def ScopeKind.child : ScopeKind → ScopeKind
  | builtin => file
  | file => inner
  | inner => inner

/-- What is known of a name. -/
structure Variable where
  entity : Entity
  /-- Where it was defined, unless it is built in. -/
  definedAt : Option Location
  /-- Whether it has a value. -/
  initialized : Bool
  /-- Whether something reads it. -/
  used : Bool
deriving DecidableEq, Inhabited

/-- A name that every program has. -/
def Variable.builtin (entity : Entity) : Variable :=
  ⟨entity, none, true, true⟩

/-- What sort of thing a name stands for. -/
def Variable.sort (v : Variable) : String :=
  match v.entity with
  | .type _ => "type"
  | .value (.function ..) => "function"
  | .value (.named _) => "variable"

/-- A variable of some level: the depth of the level and the name. -/
abbrev Address := Nat × String

/-- What a body does to variables outside of it. Both lists are sets: no address is in one of them
twice, and their order means nothing. -/
structure Effects where
  /-- The variables that are read. -/
  used : List Address := []
  /-- The variables that get a value. -/
  initialized : List Address := []
deriving DecidableEq, Inhabited

/-- Variables by their names, in the order in which they were declared. -/
abbrev Table := List (String × Variable)

namespace Table

/-- Puts a variable behind the others, or in the place of the one with its name. -/
def insert (table : Table) (name : String) (new : Variable) : Table :=
  match table with
  | [] => [(name, new)]
  | (other, old) :: table =>
    if other = name then (name, new) :: table else (other, old) :: insert table name new

/-- Changes the variable with the given name, if there is one. -/
def adjust (table : Table) (name : String) (change : Variable → Variable) : Table :=
  table.map fun (other, old) => if other = name then (other, change old) else (other, old)

theorem lookup_insert (table : Table) (name other : String) (new : Variable) :
    (table.insert name new).lookup other =
      if other = name then some new else table.lookup other := by
  induction table with
  | nil => grind [insert]
  | cons entry table ih => grind [insert]

theorem lookup_adjust (table : Table) (name other : String) (change : Variable → Variable) :
    (table.adjust name change).lookup other =
      if other = name then (table.lookup other).map change else table.lookup other := by
  induction table with
  | nil => simp [adjust]
  | cons entry table ih =>
    obtain ⟨key, old⟩ := entry
    have hcons : adjust ((key, old) :: table) name change =
        (key, if key = name then change old else old) :: adjust table name change := by
      by_cases hkey : key = name <;> simp [adjust, hkey]
    simp only [hcons, List.lookup_cons, ih]
    cases hother : other == key <;> simp_all
    split <;> rfl

end Table

/-- One level of a scope. -/
structure Level where
  kind : ScopeKind
  depth : Nat
  /-- The variables in the order in which they were declared. -/
  table : Table := []
  /-- What was done to variables of other levels. -/
  outer : Effects := {}
  /-- The type that a function has to return here, if any. -/
  returns : Option Ty := none
  /-- The statements that are kept. -/
  output : List Stmt := []
deriving Inhabited

namespace Level

/-- Adds a variable to a level. -/
def declare (level : Level) (name : String) (new : Variable) : Level :=
  { level with table := level.table.insert name new }

/-- Notes that a variable is read. Nobody asks whether a name outside of bodies is read. -/
def markUsed (level : Level) (name : String) (kind : ScopeKind) (depth : Nat) : Level :=
  if kind ≠ .inner then level
  else if depth = level.depth then
    { level with table := level.table.adjust name fun old => { old with used := true } }
  else
    { level with outer.used := level.outer.used.insert (depth, name) }

/-- Notes that a variable gets a value. -/
def markInitialized (level : Level) (name : String) (depth : Nat) : Level :=
  if depth = level.depth then
    { level with table := level.table.adjust name fun old => { old with initialized := true } }
  else
    { level with outer.initialized := level.outer.initialized.insert (depth, name) }

/-- Takes over what a finished body did to variables outside of it. -/
def apply (level : Level) (effects : Effects) : Level :=
  let afterReads := effects.used.foldl
    (fun level (depth, name) => level.markUsed name .inner depth) level
  effects.initialized.foldl
    (fun level (depth, name) => level.markInitialized name depth) afterReads

/-- Keeps a statement. -/
def emit (level : Level) (stmt : Stmt) : Level :=
  { level with output := level.output ++ [stmt] }

/-- The variables that nothing reads, in the order in which they were declared. -/
def unused (level : Level) : Table :=
  level.table.filter fun (_, old) => !old.used

/-- The warnings about the variables that nothing reads. -/
def warnings (level : Level) : List Warning :=
  level.unused.filterMap fun (name, old) =>
    old.definedAt.map fun location => ⟨.unusedVariable name, location⟩

/-- The statements that are kept, without the variables that nothing reads. -/
def pruned (level : Level) : List Stmt :=
  level.unused.foldl (fun block (name, _) => removeVariable name block) level.output

end Level

/-- A chain of levels: the innermost one, and those around it from the inside to the outside. -/
structure Scope where
  own : Level
  enclosing : List Level := []
deriving Inhabited

/-- A variable that was found, and the level it belongs to. -/
structure Binding where
  found : Variable
  kind : ScopeKind
  depth : Nat
deriving DecidableEq, Inhabited

namespace Scope

/-- The outermost scope, without any name. -/
def empty : Scope :=
  { own := { kind := .builtin, depth := 0 } }

/-- A scope inside of another, without names of its own. -/
def child (scope : Scope) : Scope :=
  { own :=
      { kind := scope.own.kind.child
        depth := scope.own.depth + 1
        returns := scope.own.returns }
    enclosing := scope.own :: scope.enclosing }

/-- All levels, innermost first. -/
def levels (scope : Scope) : List Level :=
  scope.own :: scope.enclosing

/-- Changes the innermost level. -/
def modifyOwn (scope : Scope) (change : Level → Level) : Scope :=
  { scope with own := change scope.own }

/-- Adds a variable to the innermost level. -/
def declare (scope : Scope) (name : String) (new : Variable) : Scope :=
  scope.modifyOwn (·.declare name new)

/-- The innermost variable with the given name. -/
def lookup (scope : Scope) (name : String) : Option Binding :=
  scope.levels.findSome? fun level =>
    (level.table.lookup name).map fun found => ⟨found, level.kind, level.depth⟩

/-- Whether the variable that `name` was bound to has a value by now: it had one, or a level inside
of its own has noted that it gets one. -/
def isInitialized (scope : Scope) (name : String) (binding : Binding) : Bool :=
  binding.found.initialized ||
    (scope.levels.takeWhile fun level => binding.depth < level.depth).any fun level =>
      level.outer.initialized.contains (binding.depth, name)

/-- Notes that a variable is read. -/
def markUsed (scope : Scope) (name : String) (kind : ScopeKind) (depth : Nat) : Scope :=
  scope.modifyOwn (·.markUsed name kind depth)

/-- Notes that a variable gets a value. -/
def markInitialized (scope : Scope) (name : String) (depth : Nat) : Scope :=
  scope.modifyOwn (·.markInitialized name depth)

/-- Takes over what a finished body did to variables outside of it. -/
def apply (scope : Scope) (effects : Effects) : Scope :=
  scope.modifyOwn (·.apply effects)

/-- Keeps a statement. -/
def emit (scope : Scope) (stmt : Stmt) : Scope :=
  scope.modifyOwn (·.emit stmt)

/-- Fails if a declaration of `name` would hide something it must not hide: a name of the same
level, or any name outside of bodies. -/
def ensureFree (scope : Scope) (name : String) (location : Location) : Except Error Unit :=
  match scope.lookup name with
  | none => .ok ()
  | some binding =>
    if binding.depth ≠ scope.own.depth ∧ binding.kind = .inner then .ok ()
    else .error ((Cause.alreadyDefined binding.found.sort name).located location)

/-- The variable that a name stands for, which must have a value. -/
def resolve (scope : Scope) (name : Name) : Except Error Binding :=
  match scope.lookup name.text with
  | none => .error ((Cause.variableNotDeclared name.text).located name.location)
  | some binding =>
    if scope.isInitialized name.text binding then .ok binding
    else .error ((Cause.variableNotInitialized name.text).located name.location)

/-- The type that a name stands for. -/
def typeNamed (scope : Scope) (name : Name) : Except Error Ty := do
  match (← scope.resolve name).found.entity with
  | .type type => return type
  | .value _ => throw (Cause.notAType.located name.location)

/-- The names that every program has: three types, two truth values, and two functions to write and
to read a line. -/
def builtin : Scope :=
  let entities : List (String × Entity) :=
    [("Int", .type .int), ("String", .type .string), ("Bool", .type .bool),
      ("TRUE", .value .bool), ("FALSE", .value .bool),
      ("print", .value (.function "print" [.string] none)),
      ("input", .value (.function "input" [] (some .string)))]
  entities.foldl (fun scope (name, entity) => scope.declare name (.builtin entity)) empty

end Scope

end FrontEnd
