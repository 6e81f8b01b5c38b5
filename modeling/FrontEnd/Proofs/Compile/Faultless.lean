import FrontEnd.Compile
import FrontEnd.Proofs.Tree.Exact

/-!
# No text of a program leads to a fault

Reading a program relies on promises: places are joined only in the order in which they stand, at
most two tokens are looked at in advance, and a string has its quotes. Where one of them is broken,
reading stops with a fault. Compiling never does, whatever the text is.

Checking relies on two more. The place of a call that is left of an assignment is joined with that
of the assignment, and the number of parameters of a name is looked up in a table. Both are spelled
out here with a failure of their own (`removeVariable?`, `repeated?`), which never shows.
-/

namespace FrontEnd

/-! ### Reading -/

/-- What a lexer yields is read without a fault. -/
theorem parse_ne_fault {tokens : List Token} (h : Lexed (tokens.map .ok)) (fault : Fault) :
    parse (tokens.map .ok) ≠ .error (.fault fault) := by
  have hresults :=
    Statements.ne_fault_of_mem_take h (Cursor.pending_ofItems _) (Nat.le_refl _) fault
  rw [parse, Statements.results_ofItems, List.length_map]
  intro hparse
  rcases mapM_id_cases (Statements.take tokens.length { cursor := .ofItems (tokens.map .ok) }) with
    ⟨values, -, hok⟩ | ⟨stop, hmem, herror⟩
  · rw [hok] at hparse
    cases hparse
  · rw [herror] at hparse
    cases hparse
    exact hresults hmem

theorem Program.read_ne_fault (source : String) (fault : Fault) :
    Program.read source ≠ .error (.fault fault) := by
  rcases mapM_id_cases (tokenize source) with ⟨tokens, htokens, hok⟩ | ⟨error, -, herror⟩
  · have hlexed : Lexed (tokens.map .ok) := htokens ▸ lexed_tokenize source
    rw [Program.read, Program.tokens, hok]
    change (Stop.ofError (Bracket.check tokens) >>= fun _ => parse (tokens.map .ok)) ≠ _
    cases Bracket.check tokens with
    | error => exact nofun
    | ok => exact parse_ne_fault hlexed fault
  · rw [Program.read, Program.tokens, herror]
    exact nofun

theorem compile_ne_fault (source : String) (options : Options) (fault : Fault) :
    (compile source options).result ≠ .error (.fault fault) := by
  intro hcompile
  unfold compile at hcompile
  split at hcompile
  · next stop hread =>
    cases hcompile
    exact Program.read_ne_fault source fault hread
  · split at hcompile
    · cases hcompile
    · next checked warnings hcheck =>
      simp only [Options.apply] at hcompile
      split at hcompile <;> cases hcompile

/-! ### Checking -/

/-- The place of a call that was the value of an assignment, joined with care. -/
def Location.ofBareCall? (call assignment : Location) : Option Location :=
  if call.line = assignment.line then call.between? assignment else some call

/-- What is left of the assignment of `value` when its target goes, if its place can be told. -/
def Stmt.ofBareValue? (value : Expr) (location : Location) : Option (List Stmt) :=
  if value.isCall then do
    return [.expression value (← value.location.ofBareCall? location)]
  else some []

mutual

/-- What is left of a statement without assignments to `name`, if all places can be told. -/
def Stmt.withoutAssignments? (name : String) : Stmt → Option (List Stmt)
  | .assignment target value location =>
    if target.text = name then Stmt.ofBareValue? value location
    else some [.assignment target value location]
  | .conditional condition body location => do
    return [.conditional condition (← removeAssignments? name body) location]
  | stmt => some [stmt]

/-- A block without assignments to `name`, up to the next declaration of it, if all places can be
told. -/
def removeAssignments? (name : String) : List Stmt → Option (List Stmt)
  | [] => some []
  | stmt :: block =>
    if stmt.declares name then some (stmt :: block)
    else do return (← stmt.withoutAssignments? name) ++ (← removeAssignments? name block)

end

/-- A block without a variable, if all places can be told. -/
def removeVariable? (name : String) : List Stmt → Option (List Stmt)
  | [] => some []
  | stmt :: block =>
    if stmt.declares name then removeAssignments? name block
    else do return stmt :: (← removeVariable? name block)

/-- The place of a call is joined with a place on the same line, so there is a join. -/
theorem Location.ofBareCall?_eq (call assignment : Location) :
    call.ofBareCall? assignment = some (call.ofBareCall assignment) := by
  unfold ofBareCall? ofBareCall
  split
  · next hline => exact between?_eq_some_iff.mpr ⟨Nat.le_of_eq hline, rfl⟩
  · rfl

theorem Stmt.ofBareValue?_eq (value : Expr) (location : Location) :
    Stmt.ofBareValue? value location = some (Stmt.ofBareValue value location) := by
  unfold Stmt.ofBareValue? Stmt.ofBareValue
  split
  · rw [Location.ofBareCall?_eq]
    rfl
  · rfl

mutual

theorem Stmt.withoutAssignments?_eq (name : String) (stmt : Stmt) :
    stmt.withoutAssignments? name = some (stmt.withoutAssignments name) := by
  cases stmt with
  | assignment target value location =>
    rw [Stmt.withoutAssignments?, Stmt.withoutAssignments]
    split
    · exact Stmt.ofBareValue?_eq value location
    · rfl
  | conditional condition body =>
    rw [Stmt.withoutAssignments?, Stmt.withoutAssignments, removeAssignments?_eq name body]
    rfl
  | expression | declaration | result | function | retain | release => rfl

theorem removeAssignments?_eq (name : String) (block : List Stmt) :
    removeAssignments? name block = some (removeAssignments name block) := by
  cases block with
  | nil => rfl
  | cons stmt block =>
    rw [removeAssignments?, removeAssignments, Stmt.withoutAssignments?_eq name stmt,
      removeAssignments?_eq name block]
    split <;> rfl

end

/-- Removing a variable never joins places that have no join. -/
theorem removeVariable?_eq (name : String) (block : List Stmt) :
    removeVariable? name block = some (removeVariable name block) := by
  induction block with
  | nil => rfl
  | cons stmt block ih =>
    rw [removeVariable?, removeVariable, removeAssignments?_eq, ih]
    split <;> rfl

/-- How often names stand in a list, added to a table. -/
def tally (table : String → Option Nat) (names : List String) : String → Option Nat :=
  names.foldl (fun table name => Function.update table name (some ((table name).getD 0 + 1))) table

/-- The first of some names that the table has more than once, with its number. Nothing can be said
if a name is not in the table. -/
def repeatedIn? (table : String → Option Nat) : List String → Option (Option (Nat × String))
  | [] => some none
  | name :: names => do
    let count ← table name
    if 1 < count then return some (count, name) else repeatedIn? table names

/-- The first of some names that stands among them more than once, by a table of all of them. -/
def repeated? (names : List String) : Option (Option (Nat × String)) :=
  repeatedIn? (tally (fun _ => none) names) names

/-- A table has the names that were added to it, with their numbers. -/
theorem tally_eq (table : String → Option Nat) (names : List String) (name : String) :
    tally table names name =
      if name ∈ names then some ((table name).getD 0 + names.count name) else table name := by
  induction names generalizing table with
  | nil => rfl
  | cons first names ih =>
    change tally (Function.update table first (some ((table first).getD 0 + 1))) names name = _
    rw [ih]
    by_cases hfirst : name = first
    · subst hfirst
      rw [Function.update_self, if_pos List.mem_cons_self, List.count_cons_self]
      by_cases hmem : name ∈ names
      · rw [if_pos hmem, Option.getD_some, Nat.add_assoc, Nat.add_comm 1]
      · rw [if_neg hmem, List.count_eq_zero.mpr hmem]
    · have hcount : (first :: names).count name = names.count name :=
        List.count_cons_of_ne (Ne.symm hfirst)
      rw [Function.update_of_ne hfirst, hcount]
      simp only [List.mem_cons, hfirst, false_or]

theorem repeatedIn?_eq {table : String → Option Nat} {count : String → Nat} (names : List String)
    (h : ∀ name ∈ names, table name = some (count name)) :
    repeatedIn? table names =
      some ((names.find? fun name => 1 < count name).map fun name => (count name, name)) := by
  induction names with
  | nil => rfl
  | cons name names ih =>
    have hrest := ih fun other hother => h other (List.mem_cons_of_mem _ hother)
    rw [repeatedIn?, h name List.mem_cons_self]
    change (if 1 < count name then some (some (count name, name)) else repeatedIn? table names) = _
    by_cases hcount : 1 < count name
    · rw [if_pos hcount, List.find?_cons_of_pos (by simpa using hcount)]
      rfl
    · rw [if_neg hcount, hrest, List.find?_cons_of_neg (by simpa using hcount)]

/-- Every name is in the table, with the number of times that it stands in the list. -/
theorem repeated?_eq (names : List String) : repeated? names =
      some ((names.find? fun name => 1 < names.count name).map fun name =>
        (names.count name, name)) := by
  refine repeatedIn?_eq names fun name hname => ?_
  rw [tally_eq, if_pos hname, Option.getD_none, Nat.zero_add]

/-- **Compiling never breaks a promise.** No text of a program makes reading join places in the
wrong order, look at more than two tokens or at none, or take the quotes from a string that has
none; removing a variable only joins places that have a join; and the table of parameters has all
parameters. -/
theorem compile_faultless :
    (∀ source options fault, (compile source options).result ≠ .error (.fault fault)) ∧
    (∀ name block, removeVariable? name block = some (removeVariable name block)) ∧
    (∀ names : List String, repeated? names =
      some ((names.find? fun name => 1 < names.count name).map fun name =>
        (names.count name, name))) :=
  ⟨compile_ne_fault, removeVariable?_eq, repeated?_eq⟩

end FrontEnd
