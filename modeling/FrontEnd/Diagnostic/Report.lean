import FrontEnd.Diagnostic.Warning

/-!
# Reports

What comes of working on a program: an outcome, and warnings on the way to it. The warnings are kept
whatever the outcome is.
-/

namespace FrontEnd

/-- An outcome, and the warnings that were given on the way to it. -/
structure Report (ε α : Type) where
  result : Except ε α
  /-- The warnings in the order in which they were given. -/
  warnings : List Warning := []

end FrontEnd
