import FrontEnd.Typing.Prune
import FrontEnd.Refcount.TempNames
import FrontEnd.Diagnostic.Warning
import Mathlib.Logic.Function.Basic

/-!
# Spare variables

A variable is *spare* if its value is needed nowhere: no name stands for it in a call that is made,
in a value that is assigned or returned, or in a condition. Which variable a name stands for is a
matter of where it is written: it is the one that was declared last, in the body itself or in a body
around it. So whether a variable is spare can be told from the statements behind its declaration
(`usesFree`), and what a body is without its spare variables can be said in one walk that knows at
each name whether the variable behind it is spare (`removeSpare`). The warnings that a body deserves
are said the same way (`cautionsOfAll`).

Removing goes by names instead, one variable after the other (`removeVariable`), when the body has
ended. The main statement here is that this comes to the same (`removeVariables_spareNames`). Two
facts are behind it: removals for different names can change places
(`removeVariable_removeAssignments`), and a walk that takes one more variable for spare finds what
the first walk leaves without the assignments to it (`removeSpare_update`).
-/

namespace FrontEnd

open List

variable {name other : String} {stmt kept : Stmt} {front rest : List Stmt} {spare : String → Bool}
  {names : List String}

mutual

/-- Whether a statement needs the value of a variable of the given name from outside of it. An
expression without an effect needs none. -/
def Stmt.uses (name : String) : Stmt → Bool
  | .expression expression _ => expression.isCall && expression.names.contains name
  | .assignment _ value _ => value.names.contains name
  | .conditional condition body _ => condition.names.contains name || usesFree name body
  | .result value _ => value.names.contains name
  | .declaration .. | .function .. | .retain .. | .release .. => false

/-- Whether a block needs the value of a variable of the given name from outside of it. Behind a
declaration in the block the name stands for the variable that is declared there. -/
def usesFree (name : String) : List Stmt → Bool
  | [] => false
  | stmt :: block => stmt.uses name || !stmt.declares name && usesFree name block

end

/-- Which names stand for a spare variable behind a statement, if `rest` is what follows it in its
body. -/
def spareBehind (spare : String → Bool) (rest : List Stmt) : Stmt → String → Bool
  | .declaration _ name _ => Function.update spare name !usesFree name rest
  | _ => spare

/-- What is left of a value that was meant for a spare variable. A call is still made. The statement
that makes it ends where the assignment ended, if this is on the line of the call. -/
def Stmt.ofSpareValue (value : Expr) (location : Location) : List Stmt :=
  match value with
  | .call callee arguments place =>
    [.expression (.call callee arguments place)
      (if place.line = location.line then ⟨place.line, place.start, location.stop⟩ else place)]
  | .name _ | .integer .. | .string .. => []

mutual

/-- **What is left of a statement without spare variables**, if `rest` is what follows it in its
body. A call that was to give its value to a spare variable stays. -/
def Stmt.withoutSpare (spare : String → Bool) (rest : List Stmt) : Stmt → List Stmt
  | .expression expression location =>
    if expression.isCall then [.expression expression location] else []
  | .declaration type name location =>
    if usesFree name rest then [.declaration type name location] else []
  | .assignment target value location =>
    if spare target.text then Stmt.ofSpareValue value location
    else [.assignment target value location]
  | .conditional condition body location =>
    [.conditional condition (removeSpare spare body) location]
  | .function name parameters returnType body location =>
    [.function name parameters returnType (removeSpare (fun _ => false) body) location]
  | stmt => [stmt]

/-- **What is left of a block without spare variables**, if `spare` tells which names stand for one
at its start. -/
def removeSpare (spare : String → Bool) : List Stmt → List Stmt
  | [] => []
  | stmt :: block =>
    stmt.withoutSpare spare block ++ removeSpare (spareBehind spare block stmt) block

end

/-- The warning about the variable that a statement declares, if it is spare. -/
def Stmt.spareWarning (rest : List Stmt) : Stmt → List Warning
  | .declaration _ name location =>
    if usesFree name rest then [] else [⟨.unusedVariable name, location⟩]
  | _ => []

/-- The warnings about the spare variables of a body, in the order in which they are declared. -/
def spareIn : List Stmt → List Warning
  | [] => []
  | stmt :: block => stmt.spareWarning block ++ spareIn block

mutual

/-- **The warnings about a statement**: those about expressions without an effect when they are
reached, those about the spare variables of a body when it ends. -/
def Stmt.cautions : Stmt → List Warning
  | .expression expression location => if expression.isCall then [] else [⟨.noEffect, location⟩]
  | .conditional _ body _ => cautionsOfAll body ++ spareIn body
  | .function _ _ _ body _ => cautionsOfAll body ++ spareIn body
  | _ => []

/-- The warnings about the statements of a block, but for those about its own spare variables. -/
def cautionsOfAll : List Stmt → List Warning
  | [] => []
  | stmt :: block => stmt.cautions ++ cautionsOfAll block

end

/-! ### Removing assignments -/

theorem Location.ofBareCall_eq (call assignment : Location) : call.ofBareCall assignment =
    if call.line = assignment.line then ⟨call.line, call.start, assignment.stop⟩ else call := by
  unfold ofBareCall
  split
  · next hline => rw [span, if_neg (by omega)]
  · rfl

/-- An assignment that is removed by the name of its target leaves the same. -/
theorem Stmt.ofSpareValue_eq (value : Expr) (location : Location) :
    Stmt.ofSpareValue value location = Stmt.ofBareValue value location := by
  cases value with
  | call =>
    rw [ofBareValue, Location.ofBareCall_eq]
    rfl
  | name | integer | string => rfl

theorem Stmt.eq_declaration_of_declares (h : stmt.declares name = true) :
    ∃ type location, stmt = .declaration type name location := by
  cases stmt with
  | declaration type declared location =>
    exact ⟨type, location, by rw [of_decide_eq_true h]⟩
  | expression | assignment | conditional | result | function | retain | release => cases h

theorem Stmt.declares_inj (h : stmt.declares name = true) (h' : stmt.declares other = true) :
    name = other := by
  obtain ⟨type, location, rfl⟩ := Stmt.eq_declaration_of_declares h
  exact of_decide_eq_true h'

theorem Stmt.declares_of_mem_withoutAssignments (hmem : kept ∈ stmt.withoutAssignments name)
    (h : stmt.declares other = false) : kept.declares other = false := by
  cases stmt with
  | assignment target value location =>
    simp only [withoutAssignments, ofBareValue] at hmem
    split at hmem
    · split at hmem <;> simp_all [declares]
    · simp_all [declares]
  | conditional => simp_all [withoutAssignments, declares]
  | expression | declaration | result | function | retain | release => simp_all [withoutAssignments]

/-- Up to a declaration of the name, assignments are removed statement by statement. -/
theorem removeAssignments_append (back : List Stmt)
    (h : ∀ stmt ∈ front, stmt.declares name = false) :
    removeAssignments name (front ++ back) =
      front.flatMap (Stmt.withoutAssignments name) ++ removeAssignments name back := by
  induction front with
  | nil => rfl
  | cons stmt front ih =>
    rw [forall_mem_cons] at h
    rw [cons_append, removeAssignments, h.1, if_neg (by simp), ih h.2, flatMap_cons, append_assoc]

/-- In front of a declaration of the name, nothing changes. -/
theorem removeVariable_append (back : List Stmt) (h : ∀ stmt ∈ front, stmt.declares name = false) :
    removeVariable name (front ++ back) = front ++ removeVariable name back := by
  induction front with
  | nil => rfl
  | cons stmt front ih =>
    rw [forall_mem_cons] at h
    rw [cons_append, removeVariable, h.1, if_neg (by simp), ih h.2, cons_append]

@[simp] theorem flatMap_withoutAssignments_ofBareValue (name : String) (value : Expr)
    (location : Location) :
    (Stmt.ofBareValue value location).flatMap (Stmt.withoutAssignments name) =
      Stmt.ofBareValue value location := by
  unfold Stmt.ofBareValue
  split <;> simp [Stmt.withoutAssignments]

mutual

/-- What has no assignments to a name is left as it is. -/
theorem Stmt.withoutAssignments_idem (name : String) : ∀ stmt : Stmt,
    (stmt.withoutAssignments name).flatMap (Stmt.withoutAssignments name) =
      stmt.withoutAssignments name
  | .assignment target value location => by
    rw [Stmt.withoutAssignments]
    split
    · exact flatMap_withoutAssignments_ofBareValue name value location
    · next hne => simp [Stmt.withoutAssignments, hne]
  | .conditional condition body location => by
    simp [Stmt.withoutAssignments, removeAssignments_idem name body]
  | .expression .. | .declaration .. | .result .. | .function .. | .retain .. | .release .. => by
    simp [Stmt.withoutAssignments]

theorem removeAssignments_idem (name : String) : ∀ block : List Stmt,
    removeAssignments name (removeAssignments name block) = removeAssignments name block
  | [] => by simp [removeAssignments]
  | stmt :: block => by
    cases hdeclares : stmt.declares name with
    | true => simp [removeAssignments, hdeclares]
    | false =>
      have hkept := fun kept (hmem : kept ∈ stmt.withoutAssignments name) =>
        Stmt.declares_of_mem_withoutAssignments hmem hdeclares
      rw [removeAssignments, if_neg (by simp [hdeclares]), removeAssignments_append _ hkept,
        Stmt.withoutAssignments_idem name stmt, removeAssignments_idem name block]

end

/-- A declaration is no assignment. -/
theorem Stmt.withoutAssignments_of_declares (h : stmt.declares other = true) :
    stmt.withoutAssignments name = [stmt] := by
  obtain ⟨type, location, rfl⟩ := Stmt.eq_declaration_of_declares h
  rw [withoutAssignments] <;> simp

theorem removeAssignments_cons_of_not_declares (block : List Stmt)
    (h : stmt.declares name = false) :
    removeAssignments name (stmt :: block) = stmt.withoutAssignments name ++
      removeAssignments name block := by
  rw [removeAssignments, if_neg (by simp [h])]

theorem removeAssignments_cons_of_declares (block : List Stmt) (h : stmt.declares name = true) :
    removeAssignments name (stmt :: block) = stmt :: block := by
  rw [removeAssignments, if_pos h]

mutual

/-- Assignments to two names can be removed in either order. -/
theorem Stmt.withoutAssignments_comm (name other : String) : ∀ stmt : Stmt,
    (stmt.withoutAssignments name).flatMap (Stmt.withoutAssignments other) =
      (stmt.withoutAssignments other).flatMap (Stmt.withoutAssignments name)
  | .assignment target value location => by
    simp only [Stmt.withoutAssignments]
    split <;> split <;> simp [Stmt.withoutAssignments, *]
  | .conditional condition body location => by
    simp [Stmt.withoutAssignments, removeAssignments_comm name other body]
  | .expression .. | .declaration .. | .result .. | .function .. | .retain .. | .release .. => by
    simp [Stmt.withoutAssignments]

theorem removeAssignments_comm (name other : String) : ∀ block : List Stmt,
    removeAssignments other (removeAssignments name block) =
      removeAssignments name (removeAssignments other block)
  | [] => by simp [removeAssignments]
  | stmt :: block => by
    have hblock := removeAssignments_comm name other block
    cases hname : stmt.declares name with
    | true =>
      cases hother : stmt.declares other with
      | true => simp [removeAssignments, hname, hother]
      | false => simp [removeAssignments, hname, hother, Stmt.withoutAssignments_of_declares hname]
    | false =>
      cases hother : stmt.declares other with
      | true => simp [removeAssignments, hname, hother, Stmt.withoutAssignments_of_declares hother]
      | false =>
        rw [removeAssignments_cons_of_not_declares block hname,
          removeAssignments_cons_of_not_declares block hother,
          removeAssignments_append _ fun kept hmem =>
          Stmt.declares_of_mem_withoutAssignments hmem hother,
            removeAssignments_append _ fun kept hmem =>
            Stmt.declares_of_mem_withoutAssignments hmem hname,
              Stmt.withoutAssignments_comm name other stmt, hblock]

end

/-- Variables with other names can be removed before assignments or after them. -/
theorem removeVariable_removeAssignments (hne : other ≠ name) (block : List Stmt) :
    removeVariable other (removeAssignments name block) =
      removeAssignments name (removeVariable other block) := by
  induction block with
  | nil => simp [removeAssignments, removeVariable]
  | cons stmt block ih =>
    cases hother : stmt.declares other with
    | true =>
      have hname : stmt.declares name = false := by
        cases hname : stmt.declares name with
        | false => rfl
        | true => exact absurd (Stmt.declares_inj hother hname) hne
      rw [removeAssignments_cons_of_not_declares block hname,
        Stmt.withoutAssignments_of_declares hother, singleton_append, removeVariable, if_pos hother,
        removeVariable, if_pos hother, removeAssignments_comm]
    | false =>
      rw [removeVariable, if_neg (by simp [hother])]
      cases hname : stmt.declares name with
      | true =>
        rw [removeAssignments_cons_of_declares block hname,
          removeAssignments_cons_of_declares _ hname, removeVariable, if_neg (by simp [hother])]
      | false =>
        rw [removeAssignments_cons_of_not_declares block hname,
          removeAssignments_cons_of_not_declares _ hname, removeVariable_append _ fun kept hmem =>
          Stmt.declares_of_mem_withoutAssignments hmem hother, ih]

/-! ### Walking with one more spare variable -/

theorem Stmt.declares_of_mem_withoutSpare (hmem : kept ∈ stmt.withoutSpare spare rest)
    (h : stmt.declares name = false) :
    kept.declares name = false := by
  cases stmt with
  | expression | declaration =>
    simp only [withoutSpare] at hmem
    split at hmem <;> simp_all [declares]
  | assignment target value location =>
    simp only [withoutSpare, ofSpareValue_eq, ofBareValue] at hmem
    split at hmem
    · split at hmem <;> simp_all [declares]
    · simp_all [declares]
  | conditional | function => simp_all [withoutSpare, declares]
  | result | retain | release => simp_all [withoutSpare]

theorem spareBehind_update (h : stmt.declares name = false) (value : Bool) :
    spareBehind (Function.update spare name value) rest stmt =
      Function.update (spareBehind spare rest stmt) name value := by
  cases stmt with
  | declaration => exact Function.update_comm (fun heq => by simp [Stmt.declares, heq] at h) ..
  | expression | assignment | conditional | result | function | retain | release => rfl

mutual

theorem Stmt.withoutSpare_update (name : String) (spare : String → Bool) (rest : List Stmt) :
    ∀ stmt : Stmt, stmt.withoutSpare (Function.update spare name true) rest =
      (stmt.withoutSpare (Function.update spare name false) rest).flatMap
        (Stmt.withoutAssignments name)
  | .assignment target value location => by
    by_cases hname : target.text = name
    · simp [Stmt.withoutSpare, Stmt.withoutAssignments, Stmt.ofSpareValue_eq, hname]
    · cases hspare : spare target.text <;>
        simp [Stmt.withoutSpare, Stmt.withoutAssignments, Stmt.ofSpareValue_eq, hname, hspare]
  | .conditional condition body location => by
    simp [Stmt.withoutSpare, Stmt.withoutAssignments, removeSpare_update name spare body]
  | .expression expression location => by
    cases hcall : expression.isCall <;> simp [Stmt.withoutSpare, Stmt.withoutAssignments, hcall]
  | .declaration type other location => by
    cases huses : usesFree other rest <;> simp [Stmt.withoutSpare, Stmt.withoutAssignments, huses]
  | .result .. | .function .. | .retain .. | .release .. =>
    by simp [Stmt.withoutSpare, Stmt.withoutAssignments]

/-- **One more spare variable.** If the variable that a name stands for turns out to be spare, the
assignments to it have to go, and nothing else changes. -/
theorem removeSpare_update (name : String) (spare : String → Bool) : ∀ block : List Stmt,
    removeSpare (Function.update spare name true) block =
      removeAssignments name (removeSpare (Function.update spare name false) block)
  | [] => by simp [removeSpare, removeAssignments]
  | stmt :: block => by
    rw [removeSpare, removeSpare]
    cases hname : stmt.declares name with
    | true =>
      -- behind a declaration of the name both sides go on alike
      obtain ⟨type, location, rfl⟩ := Stmt.eq_declaration_of_declares hname
      simp only [spareBehind, Function.update_idem, Stmt.withoutSpare]
      cases huses : usesFree name block with
      | true =>
        rw [if_pos rfl, singleton_append, removeAssignments_cons_of_declares _ hname]
      | false =>
        rw [if_neg Bool.false_ne_true, nil_append, Bool.not_false,
          removeSpare_update name spare block, removeAssignments_idem]
    | false =>
      rw [removeAssignments_append _ fun kept hmem => Stmt.declares_of_mem_withoutSpare hmem hname,
        Stmt.withoutSpare_update name spare block stmt]
      rw [spareBehind_update hname, spareBehind_update hname, removeSpare_update name _ block]

end

/-! ### Bodies -/

/-- What is told of a variable when its body ends. -/
structure Tracked where
  name : String
  /-- The place of the declaration, if there is one. -/
  declaredAt : Option Location
  used : Bool

/-- The variables that a body declares, in their order. -/
def declaredIn : List Stmt → List Tracked
  | [] => []
  | .declaration _ name location :: block =>
    ⟨name, some location, usesFree name block⟩ :: declaredIn block
  | _ :: block => declaredIn block

/-- What is kept of a statement when it is reached. Whether a variable is spare is not known before
its body ends. -/
def Stmt.reached : Stmt → List Stmt
  | .declaration type name location => [.declaration type name location]
  | stmt => stmt.withoutSpare (fun _ => false) []

/-- A block without the variables of the given names. -/
def removeVariables (names : List String) (block : List Stmt) : List Stmt :=
  names.foldl (fun kept name => removeVariable name kept) block

theorem removeVariables_cons (name : String) (names : List String) (block : List Stmt) :
    removeVariables (name :: names) block = removeVariables names (removeVariable name block) := rfl

theorem removeVariables_append (h : ∀ stmt ∈ front, ∀ name ∈ names, stmt.declares name = false)
    (back : List Stmt) :
    removeVariables names (front ++ back) = front ++ removeVariables names back := by
  induction names generalizing back with
  | nil => rfl
  | cons name names ih =>
    rw [removeVariables_cons, removeVariables_cons,
      removeVariable_append back fun stmt hmem => h stmt hmem name mem_cons_self,
      ih fun stmt hmem other hother => h stmt hmem other (mem_cons_of_mem _ hother)]

theorem removeVariables_removeAssignments (h : name ∉ names) (block : List Stmt) :
    removeVariables names (removeAssignments name block) =
      removeAssignments name (removeVariables names block) := by
  induction names generalizing block with
  | nil => rfl
  | cons other names ih =>
    rw [mem_cons, not_or] at h
    rw [removeVariables_cons, removeVariables_cons,
      removeVariable_removeAssignments (Ne.symm h.1), ih h.2]

/-- The names of the spare variables of a body. -/
def spareNames (block : List Stmt) : List String :=
  ((declaredIn block).filter (!·.used)).map Tracked.name

theorem spareNames_sublist (block : List Stmt) :
    (spareNames block).Sublist ((declaredIn block).map Tracked.name) :=
  filter_sublist.map Tracked.name

/-- What a statement is that declares nothing. -/
structure Stmt.Plain (stmt : Stmt) : Prop where
  declaredIn : ∀ block, declaredIn (stmt :: block) = FrontEnd.declaredIn block
  spareIn : ∀ block, spareIn (stmt :: block) = FrontEnd.spareIn block
  reached : ∀ rest, stmt.withoutSpare (fun _ => false) rest = stmt.reached
  spareBehind : ∀ spare rest, spareBehind spare rest stmt = spare

theorem Stmt.plain (h : ∀ name, stmt.declares name = false) : stmt.Plain := by
  cases stmt with
  | declaration type name => simpa [declares] using h name
  | expression | assignment | conditional | result | function | retain | release =>
    exact ⟨fun _ => rfl, fun _ => rfl, fun _ => rfl, fun _ _ => rfl⟩

theorem Stmt.declaration_or_plain (stmt : Stmt) :
    (∃ type name location, stmt = .declaration type name location) ∨ ∀ name,
      stmt.declares name = false := by
  by_cases h : ∃ name, stmt.declares name = true
  · obtain ⟨name, hname⟩ := h
    obtain ⟨type, location, heq⟩ := Stmt.eq_declaration_of_declares hname
    exact .inl ⟨type, name, location, heq⟩
  · exact .inr (by simpa using h)

/-- **Spare variables can go one by one, when their body ends.** -/
theorem removeVariables_spareNames {block : List Stmt}
    (h : ((declaredIn block).map Tracked.name).Nodup) :
    removeVariables (spareNames block) (block.flatMap Stmt.reached) =
      removeSpare (fun _ => false) block := by
  induction block with
  | nil => simp [removeSpare, removeVariables, spareNames, declaredIn]
  | cons stmt block ih =>
    rw [flatMap_cons, removeSpare]
    rcases stmt.declaration_or_plain with ⟨type, name, location, rfl⟩ | hdeclares
    · rw [declaredIn, map_cons, nodup_cons] at h
      have hother : name ∉ spareNames block :=
        fun hmem => h.1 ((spareNames_sublist block).subset hmem)
      have hdeclares : Stmt.declares name (.declaration type name location) = true := by
        simp [Stmt.declares]
      have hsame : Function.update (fun _ => false) name false = fun _ => false :=
        Function.update_eq_self ..
      rw [Stmt.reached, Stmt.withoutSpare, spareBehind]
      cases huses : usesFree name block with
      | true =>
        have hnames : spareNames (.declaration type name location :: block) = spareNames block := by
          simp [spareNames, declaredIn, huses]
        rw [if_pos rfl, Bool.not_true, hsame, hnames, removeVariables_append ?_, ih h.2]
        intro kept hkept other hmem
        rw [mem_singleton.mp hkept]
        simpa [Stmt.declares] using fun heq : name = other => hother (heq ▸ hmem)
      | false =>
        -- the variable is the first to go, and the others are removed from what is left
        have hnames : spareNames (.declaration type name location :: block) =
            name :: spareNames block := by
          simp [spareNames, declaredIn, huses]
        rw [if_neg Bool.false_ne_true, nil_append, Bool.not_false, removeSpare_update, hsame,
          ← ih h.2, hnames, removeVariables_cons, singleton_append, removeVariable,
          if_pos hdeclares, removeVariables_removeAssignments hother]
    · have hplain := Stmt.plain hdeclares
      rw [hplain.declaredIn] at h
      rw [spareNames, hplain.declaredIn, hplain.reached, hplain.spareBehind, ← ih h,
        removeVariables_append]
      · rfl
      · intro kept hkept other _
        rw [← hplain.reached []] at hkept
        exact Stmt.declares_of_mem_withoutSpare hkept (hdeclares other)

end FrontEnd
