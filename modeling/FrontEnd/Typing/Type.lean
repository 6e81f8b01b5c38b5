/-!
# Types

A type is one of the basic types, known by its name, or the type of a function. What a name or an
expression stands for while a program is checked is an *entity*: a type itself, as `Int` in a
declaration, or a value of a type, as `123`.
-/

namespace FrontEnd

/-- Types of values. -/
inductive Ty where
  | named (name : String)
  /-- A function, by its name, the types of its parameters and the type of its value, if it has
  one. -/
  | function (name : String) (parameters : List Ty) (returns : Option Ty)
deriving Inhabited

namespace Ty

/-- Integers of any size. -/
def int : Ty := named "Int"

/-- Texts. -/
def string : Ty := named "String"

/-- Truth values. -/
def bool : Ty := named "Bool"

/-- The noun for a type in a message. All functions have the same. -/
def noun : Ty → String
  | named name => name
  | function .. => "function"

mutual

/-- Decides whether two types are equal. -/
def decEq : (left right : Ty) → Decidable (left = right)
  | .named m, .named n => if h : m = n then isTrue (by rw [h]) else isFalse (by simpa using h)
  | .named _, .function .. => isFalse (by simp)
  | .function .., .named _ => isFalse (by simp)
  | .function m ps r, .function n qs s =>
    if hname : m = n then
      match decEqList ps qs, decEqOption r s with
      | isTrue hps, isTrue hr => isTrue (by rw [hname, hps, hr])
      | isFalse hps, _ => isFalse (by simp [hps])
      | _, isFalse hr => isFalse (by simp [hr])
    else isFalse (by simp [hname])

/-- Decides whether two lists of types are equal. -/
def decEqList : (left right : List Ty) → Decidable (left = right)
  | [], [] => isTrue rfl
  | [], _ :: _ => isFalse (by simp)
  | _ :: _, [] => isFalse (by simp)
  | t :: ts, u :: us =>
    match decEq t u, decEqList ts us with
    | isTrue h, isTrue hs => isTrue (by rw [h, hs])
    | isFalse h, _ => isFalse (by simp [h])
    | _, isFalse hs => isFalse (by simp [hs])

/-- Decides whether two possible types are equal. -/
def decEqOption : (left right : Option Ty) → Decidable (left = right)
  | none, none => isTrue rfl
  | none, some _ => isFalse (by simp)
  | some _, none => isFalse (by simp)
  | some t, some u =>
    match decEq t u with
    | isTrue h => isTrue (by rw [h])
    | isFalse h => isFalse (by simpa using h)

end

instance : DecidableEq Ty := decEq

end Ty

/-- What is known of a function without its body. -/
structure Signature where
  name : String
  parameters : List Ty
  /-- The type of the value, if there is one. -/
  returns : Option Ty
deriving DecidableEq, Inhabited

/-- The type of the functions with a signature. -/
def Signature.toTy (signature : Signature) : Ty :=
  .function signature.name signature.parameters signature.returns

/-- The signature of the functions of a type. -/
def Ty.signature? : Ty → Option Signature
  | .named _ => none
  | .function name parameters returns => some ⟨name, parameters, returns⟩

@[simp] theorem Signature.signature?_toTy (signature : Signature) :
    signature.toTy.signature? = some signature := rfl

theorem Ty.signature?_eq_some_iff {type : Ty} {signature : Signature} :
    type.signature? = some signature ↔ type = signature.toTy := by
  cases type <;> cases signature <;> simp [Ty.signature?, Signature.toTy]

/-- What a name or an expression stands for: a type itself, or a value of a type. -/
inductive Entity where
  | type (type : Ty)
  | value (type : Ty)
deriving DecidableEq, Inhabited

namespace Entity

/-- The noun for an entity in a message. -/
def noun : Entity → String
  | .type _ => "type"
  | .value t => t.noun

/-- The type of a value. -/
def valueType? : Entity → Option Ty
  | .type _ => none
  | .value t => some t

/-- Whether an entity is a value of the given type. -/
def isValueOf (entity : Entity) (expected : Ty) : Bool :=
  entity.valueType? = some expected

/-- The signature of a function. -/
def signature? (entity : Entity) : Option Signature :=
  entity.valueType?.bind Ty.signature?

theorem isValueOf_iff {entity : Entity} {expected : Ty} :
    entity.isValueOf expected = true ↔ entity = .value expected := by
  cases entity <;> simp [isValueOf, valueType?]

end Entity

end FrontEnd
