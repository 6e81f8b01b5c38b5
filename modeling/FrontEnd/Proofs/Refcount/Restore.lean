import FrontEnd.Proofs.Refcount.Kept
import FrontEnd.Proofs.Refcount.Undo
import FrontEnd.Proofs.Tree.Written

/-!
# Lowered programs can be undone

What a statement is lowered to consists of temporaries for its arguments, a core, and releases. The
core is the statement itself with what is left of its expression, or one more temporary for it
(`Core`). The temporaries that were made along the way have new names (`Made`), so that each of them
is declared, gets its value and is read by the core of its own statement only (`Reversible`).
Statements, bodies and functions are put together from there, and so a lowered program can be undone
(`undo_lower`).
-/

open List

namespace FrontEnd.Refcount

open Program Execution

/-! ### The names in a block -/

section Names

variable {first second block : List Stmt}

theorem namesDeclared_append :
    namesDeclared (first ++ second) = namesDeclared first ++ namesDeclared second := by
  rw [namesDeclared, Stmt.placesOfAll_append, map_append]
  rfl

theorem namesAssigned_append :
    namesAssigned (first ++ second) = namesAssigned first ++ namesAssigned second := by
  induction first with
  | nil => rfl
  | cons stmt first ih =>
    simp only [namesAssigned, cons_append, Lower.assignedNamesOfAll] at ih ⊢
    rw [ih, append_assoc]

theorem namesRead_append : namesRead (first ++ second) = namesRead first ++ namesRead second := by
  induction first with
  | nil => rfl
  | cons stmt first ih =>
    simp only [namesRead, cons_append, Stmt.expressionsOfAll, flatMap_append] at ih ⊢
    rw [ih, append_assoc]

/-- Counting names nothing that is read, gets a value or is declared. -/
theorem names_of_counting (h : ∀ stmt ∈ block, isCounting stmt = true) :
    namesDeclared block = [] ∧ namesAssigned block = [] ∧ namesRead block = [] := by
  induction block with
  | nil => exact ⟨rfl, rfl, rfl⟩
  | cons stmt block ih =>
    rw [forall_mem_cons] at h
    cases stmt with
    | retain | release => exact ih h.2
    | expression | declaration | assignment | conditional | result | function => cases h.1

section

variable {front back : List Stmt} (hfront : ∀ stmt ∈ front, isCounting stmt = true)
  (hback : ∀ stmt ∈ back, isCounting stmt = true)
include hfront hback

/-- Counting around statements makes no difference to the names in them. -/
theorem names_around (block : List Stmt) :
    namesDeclared (front ++ block ++ back) = namesDeclared block ∧
    namesAssigned (front ++ block ++ back) = namesAssigned block ∧
    namesRead (front ++ block ++ back) = namesRead block := by
  obtain ⟨hdeclared, hassigned, hread⟩ := names_of_counting hfront
  obtain ⟨hdeclared', hassigned', hread'⟩ := names_of_counting hback
  simp only [namesDeclared_append, namesAssigned_append, namesRead_append, hdeclared,
    hdeclared', hassigned, hassigned', hread, hread', append_nil, nil_append, and_self]

theorem undoneAll_around {temporary read : String → Bool} {values : String → Option Expr}
    (block : List Stmt) :
    undoneAll temporary read values (front ++ block ++ back) =
      undoneAll temporary read values block := by
  obtain ⟨hundone, hgiven⟩ := undone_of_counting hfront
  rw [undoneAll_append, undoneAll_append, hundone, hgiven, (undone_of_counting hback).1,
    append_nil, nil_append]

end

theorem names_of_setups (temps : List Temp) :
      namesDeclared (temps.flatMap Temp.setup) = temps.map (·.place.name) ∧
        namesAssigned (temps.flatMap Temp.setup) = temps.map (·.place.name) ∧
      namesRead (temps.flatMap Temp.setup) = readByTemps temps := by
  induction temps with
  | nil => exact ⟨rfl, rfl, rfl⟩
  | cons temp temps ih =>
    obtain ⟨hdeclared, hassigned, hread⟩ := ih
    have hone : namesDeclared temp.setup = [temp.place.name] ∧
        namesAssigned temp.setup = [temp.place.name] ∧
        namesRead temp.setup = temp.value.names := by
      rw [Temp.setup]
      split
      · exact ⟨rfl, rfl, append_nil _⟩
      · exact ⟨rfl, rfl, append_nil _⟩
    rw [flatMap_cons, namesDeclared_append, namesAssigned_append, namesRead_append, hdeclared,
      hassigned, hread, hone.1, hone.2.1, hone.2.2]
    exact ⟨rfl, rfl, rfl⟩

end Names

/-! ### New names -/

/-- Names that were taken for temporaries. -/
structure Made (before after made : List String) : Prop where
  grown : before ⊆ after
  taken : made ⊆ after
  free : ∀ name ∈ made, name ∉ before
  nodup : made.Nodup
  numbered : ∀ name ∈ made, ∃ number, name = TempNames.numbered number

namespace Made

variable {before middle after made made' : List String} {state : Lowering}

theorem refl (before : List String) : Made before before [] :=
  ⟨Subset.refl _, nil_subset _, by simp, .nil, by simp⟩

theorem trans (h : Made before middle made) (h' : Made middle after made') :
    Made before after (made' ++ made) where
  grown := Subset.trans h.grown h'.grown
  taken := append_subset.mpr ⟨h'.taken, Subset.trans h.taken h'.grown⟩
  free := forall_mem_append.mpr ⟨fun name hname hmem => h'.free name hname (h.grown hmem), h.free⟩
  nodup := nodup_append.mpr ⟨h'.nodup, h.nodup, fun name hname _ hother heq =>
    h'.free name hname (heq ▸ h.taken hother)⟩
  numbered := forall_mem_append.mpr ⟨h'.numbered, h.numbered⟩

theorem outside {own : List String} (h : Made before after made) (hown : own ⊆ before) :
    ∀ name ∈ made, name ∉ own :=
  fun name hname hmem => h.free name hname (hown hmem)

/-- What is made later has other names. -/
theorem apart (h : Made before middle made) (h' : Made middle after made') :
    ∀ name ∈ made', name ∉ made :=
  fun name hname hmem => h'.free name hname (h.taken hmem)

theorem hoist {own : List String} {value : Expr} (hnames : value.names ⊆ own)
    (hown : own ⊆ state.names.taken) :
    Made state.names.taken (Lower.hoist value state).2.names.taken
      ((Lower.hoist value state).1.2.map (·.place.name)) := by
  have hnew := Lower.newTemps_hoist value state
  refine ⟨(Lower.later_hoist value).taken, ?_, forall_mem_map.mpr hnew.free, hnew.nodup,
    forall_mem_map.mpr (Lower.hoisted_hoist value hnames hown).numbered⟩
  intro name hname
  obtain ⟨temp, htemp, rfl⟩ := mem_map.mp hname
  exact hnew.taken temp htemp

theorem makeTemp (value : Expr) (type : String) :
      Made state.names.taken (Lower.makeTemp value type state).2.names.taken
        [(Lower.makeTemp value type state).1.place.name] where
  grown := (Lower.later_makeTemp value type).taken
  taken := cons_subset.mpr ⟨Lower.name_makeTemp_mem value type, nil_subset _⟩
  free := forall_mem_singleton.mpr (Lower.name_makeTemp_not_mem value type)
  nodup := nodup_singleton _
  numbered := forall_mem_singleton.mpr ⟨_, rfl⟩

end Made

/-! ### What can be undone -/

/-- It is known which names are temporaries and which of them are read. -/
structure Tells (own made : List String) (lowered : List Stmt)
    (temporary read : String → Bool) : Prop where
  kept : ∀ name ∈ own, temporary name = false
  added : ∀ name ∈ made, temporary name = true
  used : ∀ name ∈ made, read name = (namesRead lowered).contains name

/-- **Statements and what they were lowered to**, if temporaries with the names in `made` were made
for it. Each of them is declared once, gets a value once and is read at most once, and without them
the statements are what they were. -/
structure Reversible (types : ReturnTypes) (own made : List String)
    (source lowered : List Stmt) : Prop where
  declared : ∀ name ∉ own, (namesDeclared lowered).count name = made.count name
  assigned : ∀ name ∉ own, (namesAssigned lowered).count name = made.count name
  read : ∀ name ∉ own, (namesRead lowered).count name ≤ made.count name
  undone : ∀ {temporary read : String → Bool} {values : String → Option Expr},
    Tells own made lowered temporary read → (∀ name ∈ own, values name = none) →
    Forall₂ (Restored types) source (undoneAll temporary read values lowered)

/-- Statements with an expression, and what they are lowered to behind the temporaries of the
expression, of which `hoisted` is left. Temporaries with the names in `made` are made for the
rest. -/
structure Core (types : ReturnTypes) (own made : List String) (value hoisted : Expr)
    (source core : List Stmt) :
    Prop where
  declared : ∀ name ∉ own, (namesDeclared core).count name = made.count name
  assigned : ∀ name ∉ own, (namesAssigned core).count name = made.count name
  read : ∀ name ∉ own, (namesRead core).count name ≤ hoisted.names.count name + made.count name
  reads : hoisted.names ⊆ namesRead core
  undone : ∀ {temporary read : String → Bool} {values : String → Option Expr},
    Tells own made core temporary read → (∀ name ∈ own, values name = none) →
    hoisted.substitute values = value →
    Forall₂ (Restored types) source (undoneAll temporary read values core)

section Parts

variable {types : ReturnTypes} {own made made' : List String}
  {source source' lowered lowered' : List Stmt} {temporary read : String → Bool}

theorem Reversible.not_mem_namesRead (h : Reversible types own made source lowered) {name : String}
    (hown : name ∉ own) (hmade : name ∉ made) : name ∉ namesRead lowered := by
  have hread := h.read name hown
  rw [count_eq_zero.mpr hmade] at hread
  exact count_eq_zero.mp (Nat.le_zero.mp hread)

theorem Reversible.nil : Reversible types own [] [] [] where
  declared _ _ := rfl
  assigned _ _ := rfl
  read _ _ := Nat.le_refl _
  undone _ _ := .nil

/-- What is known of two parts together is known of each of them, as none reads temporaries of the
other one. -/
theorem Tells.parts (htells : Tells own (made' ++ made) (lowered ++ lowered') temporary read)
    (h : Reversible types own made source lowered)
    (h' : Reversible types own made' source' lowered') (hapart : ∀ name ∈ made', name ∉ made)
    (hown : ∀ name ∈ made' ++ made, name ∉ own) :
    Tells own made lowered temporary read ∧ Tells own made' lowered' temporary read := by
  obtain ⟨hkept, hadded, hused⟩ := htells
  rw [forall_mem_append] at hown hadded hused
  refine ⟨⟨hkept, hadded.2, fun name hname => ?_⟩, ⟨hkept, hadded.1, fun name hname => ?_⟩⟩
  · have hnot : name ∉ namesRead lowered' := h'.not_mem_namesRead (hown.2 name hname) fun hmem =>
      hapart name hmem hname
    rw [hused.2 name hname, namesRead_append]
    simp [hnot]
  · have hnot : name ∉ namesRead lowered :=
      h.not_mem_namesRead (hown.1 name hname) (hapart name hname)
    rw [hused.1 name hname, namesRead_append]
    simp [hnot]

section

variable (h : Reversible types own made source lowered)
include h

/-- One statement behind the other. -/
theorem Reversible.append (h' : Reversible types own made' source' lowered')
    (hapart : ∀ name ∈ made', name ∉ made) (hown : ∀ name ∈ made' ++ made, name ∉ own) :
    Reversible types own (made' ++ made) (source ++ source') (lowered ++ lowered') where
  declared name hname := by
    rw [namesDeclared_append, count_append, count_append, h.declared name hname,
      h'.declared name hname, Nat.add_comm]
  assigned name hname := by
    rw [namesAssigned_append, count_append, count_append, h.assigned name hname,
      h'.assigned name hname, Nat.add_comm]
  read name hname := by
    have := h.read name hname
    have := h'.read name hname
    rw [namesRead_append, count_append, count_append]
    omega
  undone := by
    intro temporary read values htells hvalues
    obtain ⟨hfirst, hsecond⟩ := htells.parts h h' hapart hown
    rw [undoneAll_append]
    refine rel_append (h.undone hfirst hvalues) (h'.undone hsecond fun name hname => ?_)
    rw [givenByAll_of_not_temporary (htells.kept name hname), hvalues name hname]

/-- Counting around statements makes no difference. -/
theorem Reversible.counting {front back : List Stmt}
    (hfront : ∀ stmt ∈ front, isCounting stmt = true)
    (hback : ∀ stmt ∈ back, isCounting stmt = true) :
    Reversible types own made source (front ++ lowered ++ back) := by
  obtain ⟨hdeclared, hassigned, hread⟩ := names_around hfront hback lowered
  refine ⟨hdeclared ▸ h.declared, hassigned ▸ h.assigned, hread ▸ h.read, fun htells hvalues => ?_⟩
  rw [undoneAll_around hfront hback]
  exact h.undone ⟨htells.kept, htells.added, hread ▸ htells.used⟩ hvalues

/-- The releases at the end of a body make no difference. -/
theorem Reversible.ended (returned : Bool) (frames : Frames) :
    Reversible types own made source
      (if returned then lowered else lowered ++ frames.releaseInnermost) := by
  cases returned with
  | true => exact h
  | false => exact h.counting (forall_mem_nil _) (counting_releases _)

end

end Parts

/-! ### Around the core -/

section Cores

variable {types : ReturnTypes} {own made : List String} {value hoisted : Expr}
  {source core : List Stmt} {around : Expr → Stmt} {temp : Temp} {location : Location}

/-- A core behind the temporaries of its expression. -/
theorem Core.reversible {temps : List Temp} (hcore : Core types own made value hoisted source core)
    (hhoisted : Hoisted own temps value hoisted)
    (hapart : ∀ name ∈ made, name ∉ temps.map (·.place.name))
    (hown : ∀ name ∈ made ++ temps.map (·.place.name), name ∉ own) :
    Reversible types own (made ++ temps.map (·.place.name)) source
      (temps.flatMap Temp.setup ++ core) := by
  obtain ⟨hdeclared, hassigned, hread⟩ := names_of_setups temps
  rw [forall_mem_append] at hown
  refine ⟨fun name hname => ?_, fun name hname => ?_, fun name hname => ?_, ?_⟩
  · rw [namesDeclared_append, hdeclared, count_append, count_append,
      hcore.declared name hname, Nat.add_comm]
  · rw [namesAssigned_append, hassigned, count_append, count_append,
      hcore.assigned name hname, Nat.add_comm]
  · have hone := hhoisted.read name hname
    have hmore := hcore.read name hname
    rw [namesRead_append, hread]
    simp only [count_append] at hone ⊢
    omega
  · intro temporary read values htells hvalues
    obtain ⟨hkept, hadded, hused⟩ := htells
    rw [forall_mem_append] at hadded hused
    -- every temporary of the expression is read, by another one or by the core
    have htemps : ∀ temp ∈ temps, read temp.place.name = true := by
      intro temp htemp
      have hmem := mem_map_of_mem (f := (·.place.name)) htemp
      have hpos : 0 < (readByTemps temps ++ hoisted.names).count temp.place.name := by
        rw [hhoisted.read _ (hown.2 _ hmem)]
        exact count_pos_iff.mpr hmem
      rw [hused.2 _ hmem, namesRead_append, hread, contains_iff_mem]
      exact (mem_append.mp (count_pos_iff.mp hpos)).elim (mem_append_left _)
        fun hmem => mem_append_right _ (hcore.reads hmem)
    have htemporary := forall_mem_map.mp hadded.2
    have htells : Tells own made core temporary read := by
      refine ⟨hkept, hadded.1, fun name hname => ?_⟩
      have hnot : name ∉ readByTemps temps := by
        have hone := hhoisted.read name (hown.1 name hname)
        rw [count_eq_zero.mpr (hapart name hname), count_append] at hone
        exact count_eq_zero.mp (by omega)
      rw [hused.1 name hname, namesRead_append, hread]
      simp [hnot]
    rw [undoneAll_append, undoneAll_setups htemporary htemps,
      givenByAll_setups htemporary, nil_append]
    refine hcore.undone htells (fun name hname => ?_) (hhoisted.restored values hvalues)
    rw [givenByTemps_of_not_mem fun hmem => hown.2 name hmem hname, hvalues name hname]

/-- A kind of statement with one expression. -/
structure Holds (own : List String) (around : Expr → Stmt) : Prop where
  places : ∀ value, (around value).places = []
  assigned : ∀ value, Lower.assignedNames (around value) ⊆ own
  expressions : ∀ value, (around value).expressions = [value]
  undone : ∀ {temporary read : String → Bool} {values : String → Option Expr} {value : Expr},
    (∀ name ∈ own, temporary name = false) →
    (around value).undone temporary read values = [around (value.substitute values)]

theorem holds_expression (location : Location) : Holds own (.expression · location) :=
  ⟨fun _ => rfl, fun _ => nil_subset _, fun _ => rfl, fun _ => rfl⟩

theorem holds_result (location : Location) : Holds own (.result · location) :=
  ⟨fun _ => rfl, fun _ => nil_subset _, fun _ => rfl, fun _ => rfl⟩

theorem holds_assignment {target : Name} (htarget : target.text ∈ own) (location : Location) :
    Holds own (.assignment target · location) := by
  refine ⟨fun _ => rfl, fun _ => cons_subset.mpr ⟨htarget, nil_subset _⟩, fun _ =>
    rfl, fun hown => ?_⟩
  rw [Stmt.undone, hown _ htarget]
  rfl

namespace Holds

theorem namesDeclared_eq (h : Holds own around) (value : Expr) :
    namesDeclared [around value] = [] := by
  rw [namesDeclared, Stmt.placesOfAll, h.places]
  rfl

theorem count_namesAssigned (h : Holds own around) (value : Expr) {name : String}
    (hname : name ∉ own) :
    (namesAssigned [around value]).count name = 0 := by
  rw [namesAssigned, Lower.assignedNamesOfAll, Lower.assignedNamesOfAll, append_nil, count_eq_zero]
  exact fun hmem => hname (h.assigned value hmem)

theorem namesRead_eq (h : Holds own around) (value : Expr) :
    namesRead [around value] = value.names := by
  rw [namesRead, Stmt.expressionsOfAll, h.expressions]
  exact append_nil _

theorem undoneAll_eq (h : Holds own around) {temporary read : String → Bool}
    {values : String → Option Expr} (hown : ∀ name ∈ own, temporary name = false) (value : Expr) :
    undoneAll temporary read values [around value] = [around (value.substitute values)] := by
  rw [undoneAll, undoneAll, h.undone hown]
  rfl

end Holds

/-- A statement that takes what is left of its expression. -/
theorem Core.kept (h : Holds own around) {front back : List Stmt}
    (hfront : ∀ stmt ∈ front, isCounting stmt = true)
    (hback : ∀ stmt ∈ back, isCounting stmt = true) :
    Core types own [] value hoisted [around value] (front ++ [around hoisted] ++ back) := by
  obtain ⟨hdeclared, hassigned, hread⟩ := names_around hfront hback [around hoisted]
  rw [h.namesDeclared_eq] at hdeclared
  rw [h.namesRead_eq] at hread
  refine ⟨fun name _ => hdeclared ▸ rfl, fun name hname => ?_, fun name _ => hread ▸ Nat.le_refl _,
    hread ▸ Subset.refl _, ?_⟩
  · rw [hassigned, h.count_namesAssigned hoisted hname]
    rfl
  · rintro temporary read values htells hvalues rfl
    rw [undoneAll_around hfront hback, h.undoneAll_eq htells.kept]
    exact .cons (.same _) .nil

/-- A statement that takes one more temporary, with counting in between. -/
theorem Core.moved (h : Holds own around) {between : List Stmt}
    (hbetween : ∀ stmt ∈ between, isCounting stmt = true) :
    Core types own [temp.place.name] value temp.value [around value]
      (temp.setup ++ (between ++ [around temp.use])) := by
  obtain ⟨hdeclared, hassigned, hread⟩ := names_of_counting hbetween
  obtain ⟨hdeclared', hassigned', hread'⟩ := names_of_setups [temp]
  rw [flatMap_singleton] at hdeclared' hassigned' hread'
  have hreads : namesRead (temp.setup ++ (between ++ [around temp.use])) =
      temp.value.names ++ [temp.place.name] := by
    rw [namesRead_append, namesRead_append, hread, hread', h.namesRead_eq, nil_append, readByTemps,
      flatMap_singleton]
    rfl
  refine ⟨fun name hname => ?_, fun name hname => ?_, fun name hname => ?_, ?_, ?_⟩
  · rw [namesDeclared_append, namesDeclared_append, hdeclared, hdeclared', h.namesDeclared_eq]
    rfl
  · rw [namesAssigned_append, namesAssigned_append, hassigned, hassigned', nil_append, count_append,
      h.count_namesAssigned temp.use hname]
    rfl
  · rw [hreads, count_append]
  · rw [hreads]
    exact subset_append_left _ _
  · rintro temporary read values htells hvalues rfl
    have htemporary : ∀ other ∈ [temp], temporary other.place.name = true :=
      forall_mem_singleton.mpr (htells.added _ (mem_singleton_self _))
    have hused : ∀ other ∈ [temp], read other.place.name = true := by
      refine forall_mem_singleton.mpr ?_
      rw [htells.used _ (mem_singleton_self _), hreads]
      simp
    rw [← flatMap_singleton Temp.setup temp, ← append_nil (between ++ _), undoneAll_append,
      undoneAll_setups htemporary hused, givenByAll_setups htemporary,
      undoneAll_around hbetween (forall_mem_nil _), nil_append, h.undoneAll_eq htells.kept]
    have huse : temp.use.substitute (givenByTemps [temp] values) =
        temp.value.substitute values := by
      simp [Temp.use, Local.use, Expr.substitute, givenByTemps]
    rw [huse]
    exact .cons (.same _) .nil

/-- A call whose value nobody wants. Its temporary is not read, so the call is put back as a
statement. -/
theorem Core.unwanted (hcall : value.isCall = true) (hheap : heapFirst types value = true)
    (hplace : temp.place.location = value.location) (hfree : temp.place.name ∉ temp.value.names) :
    Core types own [temp.place.name] value temp.value [.expression value location]
      (temp.setup ++ [temp.release]) := by
  obtain ⟨hdeclared, hassigned, hread⟩ := names_of_setups [temp]
  rw [flatMap_singleton] at hdeclared hassigned hread
  have hreads : namesRead (temp.setup ++ [temp.release]) = temp.value.names := by
    rw [namesRead_append, hread, readByTemps, flatMap_singleton]
    exact append_nil _
  refine ⟨fun name hname => ?_, fun name hname => ?_, fun name hname => ?_, ?_, ?_⟩
  · rw [namesDeclared_append, hdeclared]
    rfl
  · rw [namesAssigned_append, hassigned]
    rfl
  · rw [hreads]
    exact Nat.le_add_right _ _
  · rw [hreads]
    exact Subset.refl _
  · rintro temporary read values htells hvalues hvalue
    have htemporary : temporary temp.place.name = true := htells.added _ (mem_singleton_self _)
    have hunread : read temp.place.name = false := by
      rw [htells.used _ (mem_singleton_self _), hreads]
      simpa using hfree
    have hundone : undoneAll temporary read values (temp.setup ++ [temp.release]) =
        [.expression (temp.value.substitute values) temp.place.location] := by
      rw [Temp.setup]
      split <;> simp [undoneAll, Stmt.undone, htemporary, hunread, Temp.release,
        Local.release, Stmt.given]
    rw [hundone, hvalue, hplace]
    exact .cons (.recreated hcall hheap) .nil

/-- A condition, with the body behind it. -/
theorem Core.conditional {body lowered : List Stmt} (h : Reversible types own made body lowered)
    (hfree : ∀ name ∈ made, name ∉ hoisted.names) :
    Core types own made value hoisted [.conditional value body location]
      [.conditional hoisted lowered location] := by
  have hreads : namesRead [.conditional hoisted lowered location] =
      hoisted.names ++ namesRead lowered := by
    rw [namesRead, Stmt.expressionsOfAll, Stmt.expressionsOfAll, append_nil]
    rfl
  refine ⟨fun name hname => ?_, fun name hname => ?_, fun name hname => ?_, ?_, ?_⟩
  · rw [← h.declared name hname, namesDeclared, Stmt.placesOfAll, Stmt.placesOfAll, append_nil]
    rfl
  · rw [← h.assigned name hname, namesAssigned, Lower.assignedNamesOfAll,
      Lower.assignedNamesOfAll, append_nil]
    rfl
  · rw [hreads, count_append]
    exact Nat.add_le_add_left (h.read name hname) _
  · rw [hreads]
    exact subset_append_left _ _
  · rintro temporary read values htells hvalues rfl
    have hbody : Tells own made lowered temporary read := by
      refine ⟨htells.kept, htells.added, fun name hname => ?_⟩
      rw [htells.used name hname, hreads]
      simp [hfree name hname]
    rw [undoneAll, undoneAll, append_nil, Stmt.undone]
    exact .cons (.conditional (h.undone hbody hvalues)) .nil

end Cores

end FrontEnd.Refcount

namespace FrontEnd

open FunctionDef (toStmt)

mutual

/-- Whether a statement may stand in a function and counts no references. -/
def Stmt.isOrdinary : Stmt → Bool
  | .conditional _ body _ => Stmt.areOrdinary body
  | .function .. | .retain .. | .release .. => false
  | .expression .. | .declaration .. | .assignment .. | .result .. => true

/-- The same for all statements of a body. -/
def Stmt.areOrdinary : List Stmt → Bool
  | [] => true
  | stmt :: block => stmt.isOrdinary && Stmt.areOrdinary block

end

namespace Refcount

open Program Execution

/-! ### Statements -/

namespace Lower

variable {types : ReturnTypes} {own made after : List String} {state : Lowering} {value : Expr}
  {location : Location}

theorem location_hoist (expression : Expr) :
    (hoist expression state).1.1.location = expression.location := by
  cases expression with
  | name | integer | string => rw [hoist_of_not_call rfl]
  | call => rw [hoist_call]; rfl

section

variable (hnames : value.names ⊆ own) (hown : own ⊆ state.names.taken)
include hnames hown

/-- What is left of an expression names no later temporaries. -/
theorem not_mem_names_hoist (hmade : Made (hoist value state).2.names.taken after made) :
    ∀ name ∈ made, name ∉ (hoist value state).1.1.names := by
  have hnew := newTemps_hoist value state
  have htaken := names_subset_of_read (Subset.trans hown (later_hoist value).taken) hnew.taken
    (hoisted_hoist value hnames hown).read
  exact hmade.outside htaken

/-- A statement that is lowered to temporaries, a core and counting. -/
theorem reversible_of_core {source core back : List Stmt}
    (hmade : Made (hoist value state).2.names.taken after made)
    (hcore : Core types own made value (hoist value state).1.1 source core)
    (hback : ∀ stmt ∈ back, isCounting stmt = true) : ∃ made, Made state.names.taken after made ∧
      Reversible types own made source ((hoist value state).1.2.flatMap Temp.setup ++
        core ++ back) := by
  have hfirst : Made state.names.taken _ ((hoist value state).1.2.map (·.place.name)) :=
    .hoist hnames hown
  have hall := hfirst.trans hmade
  refine ⟨_, hall, ?_⟩
  have hreversible :=
    hcore.reversible (hoisted_hoist value hnames hown) (hfirst.apart hmade) (hall.outside hown)
  exact hreversible.counting (forall_mem_nil _) hback

theorem reversible_expression (htypes : state.returnTypes = types) :
    ∃ made, Made state.names.taken (expression value location state).2.names.taken made ∧
      Reversible types own made [.expression value location]
        (expression value location state).1 := by
  have hkept := reversible_of_core hnames hown (.refl _)
    (.kept (holds_expression location) (forall_mem_nil _) (forall_mem_nil _) :
      Core types own _ _ _ _ _)
    (counting_releaseTemps (hoist value state).1.2)
  rw [expression_eq, htypes]
  cases hcall : value.isCall with
  | false => exact hkept
  | true =>
    cases hheap : (valueType types value).filter isHeap with
    | none => exact hkept
    | some type =>
      have hmade : Made (hoist value state).2.names.taken _ _ :=
        .makeTemp (hoist value state).1.1 type
      refine reversible_of_core hnames hown hmade (.unwanted hcall ?_ (location_hoist value) ?_)
        (counting_releaseTemps _)
      · rw [heapFirst]
        obtain ⟨hvalue, hisHeap⟩ := Option.filter_eq_some_iff.mp hheap
        rw [hvalue]
        exact hisHeap
      · exact not_mem_names_hoist hnames hown hmade _ (mem_singleton_self _)

end

theorem reversible_assignment {fresh : Bool} {target : Name} (htarget : target.text ∈ own)
    (hnames : value.names ⊆ own) (hown : own ⊆ state.names.taken) :
    ∃ made, Made state.names.taken (assignment fresh target value location
      state).2.names.taken made ∧
      Reversible types own made [.assignment target value location]
        (assignment fresh target value location state).1 := by
  have hholds : Holds own (.assignment target · location) := holds_assignment htarget location
  have hkept : ∀ {back : List Stmt}, (∀ stmt ∈ back, isCounting stmt = true) →
      ∃ made, Made state.names.taken (hoist value state).2.names.taken made ∧
        Reversible types own made [.assignment target value location]
          ((hoist value state).1.2.flatMap Temp.setup ++
            (.assignment target (hoist value state).1.1 location :: back) ++
              releaseTemps (hoist value state).1.2) :=
    fun hback => reversible_of_core hnames hown (.refl _) (.kept hholds (forall_mem_nil _) hback)
      (counting_releaseTemps _)
  rw [assignment_eq]
  cases (state.frames.lookup target.text).filter fun v => isHeap v.type with
  | none => exact hkept (forall_mem_nil _)
  | some v =>
    cases fresh with
    | true =>
      dsimp only
      split
      · exact hkept (forall_mem_singleton.mpr rfl)
      · exact hkept (forall_mem_nil _)
    | false =>
      exact reversible_of_core hnames hown (.makeTemp (hoist value state).1.1 v.type)
        (.moved hholds (forall_mem_singleton.mpr rfl)) (counting_releaseTemps _)

theorem reversible_result (hnames : value.names ⊆ own) (hown : own ⊆ state.names.taken) :
    ∃ made, Made state.names.taken (result value location state).2.names.taken made ∧
      Reversible types own made [.result value location] (result value location state).1 := by
  rcases value.name_or_ne with ⟨name, rfl⟩ | hname
  · have hretain :
        ∀ stmt ∈ (if (state.frames.lookup name.text).any fun v => !v.owned && isHeap v.type then
        [Stmt.retain name.text name.location] else []), isCounting stmt = true := by
      split
      · exact forall_mem_singleton.mpr rfl
      · exact forall_mem_nil _
    have hcounting :=
      forall_mem_append.mpr ⟨hretain, counting_releaseAll state.frames (some name.text)⟩
    have hreversible := reversible_of_core hnames hown (.refl _)
      (.kept (holds_result location) hcounting (forall_mem_nil _) : Core types own _ _ _ _ _)
      (forall_mem_nil _)
    rw [hoist_of_not_call rfl] at hreversible
    simpa only [result, resultName_eq, flatMap_nil, nil_append, append_nil] using hreversible
  · have hcounting := forall_mem_append.mpr
      ⟨counting_releaseTemps (hoist value state).1.2, counting_releaseAll state.frames none⟩
    rw [result_of_ne_name hname, resultValue_eq hname]
    cases valueType state.returnTypes value with
    | none =>
      have hreversible := reversible_of_core hnames hown (.refl _)
        (.kept (holds_result location) hcounting (forall_mem_nil _) : Core types own _ _ _ _ _)
        (forall_mem_nil _)
      simpa only [append_assoc, append_nil, nil_append] using hreversible
    | some type =>
      have hreversible := reversible_of_core hnames hown (.makeTemp (hoist value state).1.1 type)
        (.moved (holds_result location) hcounting : Core types own _ _ _ _ _) (forall_mem_nil _)
      simpa only [append_assoc, append_nil] using hreversible

mutual

/-- **The lowered form of a statement can be undone.** -/
theorem reversible_statement (previous : Option Stmt) : ∀ (stmt : Stmt)
    {state : Lowering}, stmt.isOrdinary = true → stmt.names ⊆ own → own ⊆ state.names.taken →
    state.returnTypes = types →
    ∃ made, Made state.names.taken (statement previous stmt state).2.names.taken made ∧
      Reversible types own made [stmt] (statement previous stmt state).1
  | .expression value location, state, _, hnames, hown, htypes => by
    rw [statement]
    exact reversible_expression hnames hown htypes
  | .declaration type name location, state, _, hnames, hown, htypes => by
    refine ⟨[], .refl _, ?_⟩
    have hname : name ∈ own := hnames mem_cons_self
    rw [statement]
    refine ⟨fun other hother => ?_, fun _ _ => rfl, fun _ _ => Nat.le_refl _,
      fun htells hvalues => ?_⟩
    · exact count_eq_zero.mpr fun hmem => hother (mem_singleton.mp hmem ▸ hname)
    · change Forall₂ _ _ (undoneAll _ _ _ [.declaration type name location])
      rw [undoneAll, undoneAll, Stmt.undone, htells.kept name hname]
      exact .cons (.same _) .nil
  | .assignment target value location, state, _, hnames, hown, htypes => by
    rw [Stmt.names, cons_subset] at hnames
    rw [statement]
    exact reversible_assignment hnames.1 hnames.2 hown
  | .conditional condition body location, state, hordinary, hnames, hown, htypes => by
    rw [Stmt.names, append_subset] at hnames
    rw [Stmt.isOrdinary] at hordinary
    have hlater : state.Later (hoist condition state).2 := later_hoist condition
    obtain ⟨made, hmade, hbody⟩ := reversible_block none body hordinary hnames.2
      (Subset.trans hown hlater.taken : own ⊆ (opened condition state).names.taken)
      (hlater.returnTypes.trans htypes)
    -- at the end of the body there may be releases
    have hended :=
      hbody.ended (endsWithResult body) (block none body (opened condition state)).2.frames
    rw [statement_conditional_eq]
    have hreversible := reversible_of_core hnames.1 hown hmade
      (.conditional hended (not_mem_names_hoist hnames.1 hown hmade) :
        Core types own _ _ _ [.conditional _ _ location] _) (forall_mem_nil _)
    simpa only [append_nil] using hreversible
  | .result value location, state, _, hnames, hown, htypes => by
    rw [statement]
    exact reversible_result hnames hown

theorem reversible_block (previous : Option Stmt) : ∀ (block : List Stmt) {state : Lowering},
    Stmt.areOrdinary block = true → Stmt.namesOfAll block ⊆ own → own ⊆ state.names.taken →
    state.returnTypes = types →
    ∃ made, Made state.names.taken (Lower.block previous block state).2.names.taken made ∧
      Reversible types own made block (Lower.block previous block state).1
  | [], state, _, _, _, _ => by
    rw [Lower.block]
    exact ⟨[], .refl _, .nil⟩
  | stmt :: block, state, hordinary, hnames, hown, htypes => by
    rw [Stmt.areOrdinary, Bool.and_eq_true] at hordinary
    rw [Stmt.namesOfAll, append_subset] at hnames
    have hgrown := grown_statement previous stmt state
    obtain ⟨made, hmade, hfirst⟩ :=
      reversible_statement previous stmt hordinary.1 hnames.1 hown htypes
    obtain ⟨made', hmade', hrest⟩ := reversible_block (some stmt) block hordinary.2 hnames.2
      (Subset.trans hown hmade.grown) (hgrown.returnTypes.trans htypes)
    rw [block_cons_eq]
    have hall := hmade.trans hmade'
    exact ⟨made' ++ made, hall, hfirst.append hrest (hmade.apart hmade') (hall.outside hown)⟩

end

end Lower

/-! ### Functions -/

section Functions

variable {types : ReturnTypes} {own : List String} {context : Context}

/-- The lowered form of a function can be undone. -/
theorem Context.reversible_lowerFunction {function : FunctionDef}
    (hordinary : Stmt.areOrdinary function.body = true) (hnames : function.toStmt.names ⊆ own)
    (hown : own ⊆ context.names.taken) (htypes : context.returnTypes = types) :
    ∃ made, Made context.names.taken (context.lowerFunction function).2.names.taken made ∧
      Reversible types own made function.body (context.lowerFunction function).1.body := by
  have hblock : Stmt.namesOfAll function.body ⊆ own :=
    fun name hname => hnames (by simp [toStmt, Stmt.names, hname])
  have htaken : own ⊆ (Lowering.start context function).names.taken := hown
  obtain ⟨made, hmade, hbody⟩ :=
    Lower.reversible_block none function.body hordinary hblock htaken htypes
  refine ⟨made, hmade, ?_⟩
  rw [Context.lowerFunction_eq]
  have hended := hbody.ended (endsWithResult function.body)
    (Lower.block none function.body (.start context function)).2.frames
  -- the references that parameters take come first
  have hprologue : ∀ stmt ∈ ((function.parameters.map
      (Lower.ofParameter (Lower.assignedNamesOfAll function.body))).filter (·.owned)).map
        fun v => Stmt.retain v.name v.location, isCounting stmt = true :=
    forall_mem_map.mpr fun _ _ => rfl
  have hcounted := hended.counting hprologue (forall_mem_nil _)
  rw [append_nil] at hcounted
  exact hcounted

/-- The lowered forms of functions can be undone. They are lowered one after the other, and each
time new names are made. -/
theorem Context.reversible_lower (functions : List FunctionDef)
    (hordinary : ∀ function ∈ functions, Stmt.areOrdinary function.body = true)
    (hnames : ∀ function ∈ functions, function.toStmt.names ⊆ own)
    (hown : own ⊆ context.names.taken) (htypes : context.returnTypes = types) :
    ∃ (made after : List String)
        (lowered : List FunctionDef), (context.lower (functions.map toStmt)).1 =
        lowered.map toStmt ∧ Made context.names.taken after made ∧
      Reversible types own made (functions.flatMap FunctionDef.body)
        (lowered.flatMap FunctionDef.body) ∧
      ∀ {temporary read : String → Bool},
      Tells own made (lowered.flatMap FunctionDef.body) temporary read →
        Forall₂ (Restored types) (functions.map toStmt)
          (undoneAll temporary read (fun _ => none) (lowered.map toStmt)) := by
  induction functions generalizing context with
  | nil => exact ⟨[], _, [], rfl, .refl _, .nil, fun _ => .nil⟩
  | cons function functions ih =>
    rw [forall_mem_cons] at hordinary hnames
    obtain ⟨made, hmade, hfirst⟩ :=
      context.reversible_lowerFunction hordinary.1 hnames.1 hown htypes
    obtain ⟨hreturnTypes, htaken⟩ := context.lowerFunction_context function
    obtain ⟨made', after, lowered, hlower, hmade', hrest, hundone⟩ := ih hordinary.2 hnames.2
      (Subset.trans hown htaken) (hreturnTypes.trans htypes)
    have hall := hmade.trans hmade'
    have hfree := hall.outside hown
    refine ⟨made' ++ made, after, (context.lowerFunction function).1 :: lowered, ?_, hall,
      hfirst.append hrest (hmade.apart hmade') hfree, fun htells => ?_⟩
    · rw [map_cons, Context.lower, map_cons, ← hlower]
      rfl
    · obtain ⟨hone, hmore⟩ := htells.parts hfirst hrest (hmade.apart hmade') hfree
      exact .cons (.function (hfirst.undone hone fun _ _ => rfl)) (hundone hmore)

end Functions

end Refcount

/-! ### Programs -/

namespace Execution

open Refcount

mutual

/-- Statements that are tidy and keep the rules are ordinary. -/
theorem ordinary_of_allowed {types : ReturnTypes} {globals : String → Option Entity}
    {returns : Option Ty} :
    ∀ {stmt : Stmt} {env after : Env Data}, tidy types stmt = true →
      Allowed globals returns stmt env after →
    stmt.isOrdinary = true
  | .expression .., _, _, _, _ | .declaration .., _, _, _, _ | .assignment .., _, _, _, _
  | .result .., _, _, _, _ => rfl
  | .conditional condition body location, _, _, htidy, h => by
    rw [tidy] at htidy
    obtain ⟨-, inner, hbody, -⟩ := h
    rw [Stmt.isOrdinary]
    exact ordinary_of_allowedAll htidy hbody
  | .retain .., _, _, htidy, _ | .release .., _, _, htidy, _ => by cases htidy

theorem ordinary_of_allowedAll {types : ReturnTypes} {globals : String → Option Entity}
    {returns : Option Ty} :
    ∀ {block : List Stmt} {env after : Env Data}, tidyAll types block = true →
    AllowedAll globals returns block env after → Stmt.areOrdinary block = true
  | [], _, _, _, _ => rfl
  | stmt :: block, _, _, htidy, h => by
    rw [tidyAll, Bool.and_eq_true] at htidy
    obtain ⟨middle, hstmt, hblock⟩ := h
    rw [Stmt.areOrdinary, ordinary_of_allowed htidy.1 hstmt, ordinary_of_allowedAll htidy.2 hblock]
    rfl

end

theorem bodies_of_file (functions : List FunctionDef) :
    Program.bodies (functions.map toStmt) = functions.flatMap FunctionDef.body := by
  rw [Program.bodies, functions_of_file]

section Temporaries

variable {functions lowered : List FunctionDef} {made after : List String} {types : ReturnTypes}
  {source : List Stmt}

/-- The names of a program are no temporaries, and the names that were made are. -/
theorem tells_made (hwell : ∀ function ∈ functions, function.WellFormed)
    (hmade : Made (Stmt.namesOfAll (functions.map toStmt)) after made)
    (h : Reversible types (Stmt.namesOfAll (functions.map toStmt)) made source
      (lowered.flatMap FunctionDef.body)) :
    Tells (Stmt.namesOfAll (functions.map toStmt)) made (lowered.flatMap FunctionDef.body)
      (Program.isTemporary (functions.map toStmt) (lowered.map toStmt))
      (Program.namesRead (lowered.flatMap FunctionDef.body)).contains := by
  refine ⟨fun name hname => ?_, fun name hname => ?_, fun _ _ => rfl⟩
  · have hoccurs : name ∈ Program.occurring (functions.map toStmt) := mem_append_left _ hname
    simp [Program.isTemporary, hoccurs]
  · have hdeclared : name ∈ Program.namesDeclared (lowered.flatMap FunctionDef.body) := by
      rw [← count_pos_iff, h.declared name (hmade.free name hname)]
      exact count_pos_iff.mpr hname
    have hfree : name ∉ Program.occurring (functions.map toStmt) := by
      rw [Program.occurring, functions_of_file, mem_append, mem_filterMap]
      rintro (hmem | ⟨function, hmem, htype⟩)
      · exact hmade.free name hname hmem
      · -- functions return what is built in
        obtain ⟨returned, hreturned, rfl⟩ := Option.map_eq_some_iff.mp htype
        obtain ⟨number, hnumber⟩ := hmade.numbered _ hname
        have hbuiltin :=
          Scope.lookup_builtin_of_basic ((hwell function hmem).basicReturn returned hreturned)
        rw [hnumber, lookup_builtin_numbered] at hbuiltin
        cases hbuiltin
    simp [Program.isTemporary, bodies_of_file, hdeclared, hfree]

/-- Each temporary was made once. -/
theorem count_made_of_isTemporary (hnodup : made.Nodup)
    (h : Reversible types (Stmt.namesOfAll (functions.map toStmt)) made source
      (lowered.flatMap FunctionDef.body)) {name : String}
    (hname : Program.isTemporary (functions.map toStmt) (lowered.map toStmt) name = true) :
    name ∉ Stmt.namesOfAll (functions.map toStmt) ∧ made.count name = 1 := by
  simp only [Program.isTemporary, bodies_of_file, Bool.and_eq_true, Bool.not_eq_true',
    contains_eq_mem, decide_eq_true_eq, decide_eq_false_iff_not] at hname
  have hfree : name ∉ Stmt.namesOfAll (functions.map toStmt) :=
    fun hmem => hname.2 (mem_append_left _ hmem)
  refine ⟨hfree, count_eq_one_of_mem hnodup ?_⟩
  rw [← count_pos_iff, ← h.declared name hfree]
  exact count_pos_iff.mpr hname.1

end Temporaries

end Execution

open Program Refcount Execution in
/-- **Lowering can be undone.** If a program was read from tokens and checked, and its reference
counts were made explicit, then without counting, and with the values of all temporaries put back to
where they are read, it is what it was: only calls that stand by themselves may be put back at
another place in the text. Each temporary is declared once, gets a value once and is read at most
once. -/
theorem undo_lower {items : List Item} {program checked : Program}
    (hparse : parse items = .ok program) (h : program.check.result = .ok checked) :
    List.Forall₂ (Restored (.ofProgram checked)) checked (checked.undo (lower checked)) ∧
      ∀ name, checked.isTemporary (lower checked) name = true →
        (namesDeclared (lower checked).bodies).count name = 1 ∧
        (namesAssigned (lower checked).bodies).count name = 1 ∧
          (namesRead (lower checked).bodies).count name ≤ 1 := by
  rw [Ordered.check_eq_direct_check] at h
  obtain ⟨functions, kept, rfl, rfl, hfile⟩ := Direct.check_eq_ok h
  have hallowed := allowedFile_checked hfile
  have hwritten : ∀ function ∈ functions, Stmt.writtenAll function.body = true :=
    fun function hmem => written_of_parse hparse (List.mem_map_of_mem hmem)
  have hordinary : ∀ function ∈ kept, Stmt.areOrdinary function.body = true := by
    intro function hmem
    obtain ⟨after, hbody⟩ := (hallowed.each function hmem).body
    exact ordinary_of_allowedAll (tidyAll_checked hfile hwritten hmem) hbody
  obtain ⟨made, after, lowered, hlower, hmade, hreversible, hundone⟩ :=
    Context.reversible_lower kept hordinary (fun _ => names_subset_namesOfAll)
      (List.Subset.refl _ : _ ⊆ (Context.ofProgram _).names.taken) rfl
  change lower (kept.map FunctionDef.toStmt) = _ at hlower
  rw [hlower, bodies_of_file]
  refine ⟨?_, fun name hname => ?_⟩
  · rw [Program.undo, bodies_of_file]
    exact hundone (tells_made hallowed.wellFormed hmade hreversible)
  · obtain ⟨hfree, hcount⟩ := count_made_of_isTemporary hmade.nodup hreversible hname
    rw [hreversible.declared name hfree, hreversible.assigned name hfree, ← hcount]
    exact ⟨rfl, rfl, hreversible.read name hfree⟩

/-- A call of a call inside of a body, whose value nobody wants. -/
def nestedCalls : String :=
  "function f(Int a, Int b) returns Int \x7b return a; \x7d
function main() \x7b if TRUE \x7b f(f(1, 2), 3); \x7d \x7d"

open Program Refcount in
theorem undo_lower_nestedCalls : ∃ program checked, parse (tokenize nestedCalls) = .ok program ∧
    program.check.result = .ok checked ∧
    namesDeclared (lower checked).bodies =
      ["tempvar1", "tempvar2", "tempvar3", "tempvar4", "tempvar5"] ∧
    List.Forall₂ (Restored (.ofProgram checked)) checked (checked.undo (lower checked)) ∧
    (namesDeclared (lower checked).bodies).count "tempvar3" = 1 ∧
    (namesAssigned (lower checked).bodies).count "tempvar3" = 1 ∧
    (namesRead (lower checked).bodies).count "tempvar3" ≤ 1 := by
  have hwithin : (Lexer.ofSource nestedCalls).itemsWithin 100 = tokenize nestedCalls :=
    Lexer.itemsWithin_eq (by decide +kernel)
  have hlowered :
      ((parse (tokenize nestedCalls)).toOption.bind fun program => program.check.result.toOption.map
      fun checked =>
      (namesDeclared (lower checked).bodies, checked.isTemporary (lower checked) "tempvar3")) =
      some (["tempvar1", "tempvar2", "tempvar3", "tempvar4", "tempvar5"], true) := by
    rw [← hwithin]
    decide +kernel
  cases hparse : parse (tokenize nestedCalls) with
  | error => rw [hparse] at hlowered; cases hlowered
  | ok program =>
    rw [hparse] at hlowered
    cases hcheck : program.check.result with
    | error =>
      change program.check.result.toOption.map _ = _ at hlowered
      rw [hcheck] at hlowered
      cases hlowered
    | ok checked =>
      change program.check.result.toOption.map _ = _ at hlowered
      rw [hcheck] at hlowered
      obtain ⟨hdeclared, htemporary⟩ := Prod.mk.inj (Option.some.inj hlowered)
      obtain ⟨hrestored, hcounts⟩ := undo_lower hparse hcheck
      exact ⟨program, checked, rfl, hcheck, hdeclared, hrestored, hcounts _ htemporary⟩

end FrontEnd
