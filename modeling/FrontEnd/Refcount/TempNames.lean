import FrontEnd.Tree.Basic

/-!
# Names for temporaries

Temporaries are called `tempvar1`, `tempvar2` and so on. A number whose name occurs in the program
is passed over, so that no temporary hides a name of the program, and no number is used twice.

There is one candidate more than there are names taken, and different numbers have different names
(`TempNames.numbered_inj`); so one candidate is free, and the search finds it
(`TempNames.numbered_nextNumber_not_mem`).
-/

namespace FrontEnd

mutual

/-- The names in an expression. -/
def Expr.names : Expr → List String
  | .name n => [n.text]
  | .integer _ _ => []
  | .string _ _ => []
  | .call callee arguments _ => callee.names ++ Expr.namesOfAll arguments

/-- The names in a list of expressions. -/
def Expr.namesOfAll : List Expr → List String
  | [] => []
  | expression :: expressions => expression.names ++ namesOfAll expressions

end

mutual

/-- The names in a statement, other than those of the types that functions return. -/
def Stmt.names : Stmt → List String
  | .expression value _ => value.names
  | .declaration type name _ => [name, type.text]
  | .assignment target value _ => target.text :: value.names
  | .conditional condition body _ => condition.names ++ Stmt.namesOfAll body
  | .result value _ => value.names
  | .function name parameters _ body _ =>
    name :: parameters.flatMap (fun parameter => [parameter.name.text, parameter.type.text]) ++
      Stmt.namesOfAll body
  | .retain name _ => [name]
  | .release name _ => [name]

/-- The names in a list of statements, other than those of the types that functions return. -/
def Stmt.namesOfAll : List Stmt → List String
  | [] => []
  | stmt :: block => stmt.names ++ namesOfAll block

end

/-- The supply of names for temporaries. -/
structure TempNames where
  /-- The names that are not to be used. -/
  taken : List String
  /-- The last number that was tried. -/
  counter : Nat := 0
deriving DecidableEq, Inhabited

namespace TempNames

/-- The name with the given number. -/
def numbered (number : Nat) : String :=
  s!"tempvar{number}"

/-- The first number behind those tried before whose name is free. -/
def nextNumber (names : TempNames) : Nat :=
  let candidates := List.range' (names.counter + 1) (names.taken.length + 1)
  (candidates.find? fun number => !names.taken.contains (numbered number)).getD
    (names.counter + 1)

/-- A name that is free, and the supply without it. -/
def fresh (names : TempNames) : String × TempNames :=
  let name := numbered names.nextNumber
  (name, { taken := name :: names.taken, counter := names.nextNumber })

/-- Different numbers have different names. -/
theorem numbered_inj {m n : Nat} : numbered m = numbered n ↔ m = n := by
  refine ⟨fun h => ?_, fun h => h ▸ rfl⟩
  have hdigits : Nat.toDigits 10 m = Nat.toDigits 10 n := by
    have hrepr : m.repr = n.repr := by simpa [numbered, toString] using h
    rw [← Nat.toList_repr, hrepr, Nat.toList_repr]
  rw [← Nat.ofDigitChars_ten_toDigits (n := m), hdigits, Nat.ofDigitChars_ten_toDigits]

/-- Among more numbers than there are names taken, one is free. -/
theorem exists_free (names : TempNames) :
    ∃ number ∈ List.range' (names.counter + 1) (names.taken.length + 1),
      numbered number ∉ names.taken := by
  refine Classical.byContradiction fun h => ?_
  have hsubset : (List.range' (names.counter + 1) (names.taken.length + 1)).map numbered
      ⊆ names.taken := by
    intro name hname
    obtain ⟨number, hnumber, rfl⟩ := List.mem_map.mp hname
    exact Classical.byContradiction fun hfree => h ⟨number, hnumber, hfree⟩
  have hnodup : ((List.range' (names.counter + 1) (names.taken.length + 1)).map numbered).Nodup :=
    List.Pairwise.map numbered (fun _ _ hne heq => hne (numbered_inj.mp heq)) List.nodup_range'
  have := hnodup.length_le_of_subset hsubset
  simp only [List.length_map, List.length_range'] at this
  omega

/-- The next number has a name that is free. -/
theorem numbered_nextNumber_not_mem (names : TempNames) :
    numbered names.nextNumber ∉ names.taken := by
  obtain ⟨number, hnumber, hfree⟩ := names.exists_free
  simp only [nextNumber]
  cases hfind : (List.range' (names.counter + 1) (names.taken.length + 1)).find?
      fun number => !names.taken.contains (numbered number) with
  | none =>
    have := List.find?_eq_none.mp hfind number hnumber
    simp [hfree] at this
  | some found =>
    have := List.find?_some hfind
    simpa using this

end TempNames

end FrontEnd
