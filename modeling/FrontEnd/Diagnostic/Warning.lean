import FrontEnd.Location

/-!
# Warnings

What a program does that it may, but hardly means to do. Checking goes on after a warning.
-/

namespace FrontEnd

/-- What looks like a mistake. -/
inductive Concern where
  | unusedVariable (variableName : String)
  | noEffect
deriving DecidableEq, Inhabited

/-- What the user is told. -/
def Concern.message : Concern → String
  | unusedVariable _ => "this variable isn't used anywhere"
  | noEffect => "this does nothing"

/-- A concern and the place it is about. -/
structure Warning where
  concern : Concern
  location : Location
deriving DecidableEq, Inhabited

namespace Warning

/-- What the user is told. -/
def message (warning : Warning) : String :=
  warning.concern.message

/-- The warning in one line. -/
def summary (warning : Warning) : String :=
  s!"line {warning.location.line}: {warning.message}"

end Warning

end FrontEnd
