import FrontEnd.Proofs.Execution.Erasure
import FrontEnd.Refcount.Local

/-!
# Accounts of references

A part of a run does not see who else refers to the objects that it uses. What it can rely on is an
account (`Counts`): the count of each object is what the others hold, which the part never changes,
and what is on a list of references of its own. An object is there as long as it is on either side
(`Backed`).

The actions of the counted machine are told by what they do to such a list: to create an object or
to retain one adds a reference, to release one takes one away, and everything else leaves the list
as it is. As long as only objects are touched that are backed, nothing goes wrong with references
(`Safe`).
-/

namespace FrontEnd.Execution

open Machine List

open Refcount (isHeap)

/-! ### Counts of a heap -/

namespace Heap

variable {heap later : Heap} {address : Nat}

theorem count_append (heap : Heap) (data : Data) (address : Nat) :
    (heap ++ [⟨data, 1⟩] : Heap).count address =
      heap.count address + if address = heap.length then 1 else 0 := by
  unfold count
  rcases Nat.lt_trichotomy address heap.length with hlt | rfl | hgt
  · rw [getElem?_append_left hlt, if_neg (by omega), Nat.add_zero]
  · simp
  · rw [getElem?_eq_none (by simp; omega), getElem?_eq_none (by omega), if_neg (by omega)]

/-- What is stored of an object that has references. -/
theorem getElem?_of_count_pos (h : 0 < heap.count address) :
    ∃ data count, heap[address]? = some ⟨data, count + 1⟩ ∧ heap.count address = count + 1 := by
  unfold count at h ⊢
  cases hobject : heap[address]? with
  | none => rw [hobject] at h; cases h
  | some object =>
    obtain ⟨data, count⟩ := object
    rw [hobject] at h
    cases count with
    | zero => cases h
    | succ count => exact ⟨data, count, rfl, rfl⟩

/-- Counting works out for objects that have references, and changes no other count. -/
theorem exists_recount (h : 0 < heap.count address) (change : Nat → Nat) :
    ∃ later, heap.recount address change = some later ∧ ∀ other, later.count other =
      if other = address then change (heap.count address) else heap.count other := by
  obtain ⟨data, count, hobject, hcount⟩ := getElem?_of_count_pos h
  have hlt := (List.getElem?_eq_some_iff.mp hobject).1
  refine ⟨heap.set address ⟨data, change (count + 1)⟩, ?_, fun other => ?_⟩
  · simp [recount, hobject]
  · rw [hcount, Heap.count, Heap.count, getElem?_set]
    by_cases hother : other = address
    · simp [hother, hlt]
    · rw [if_neg (fun heq => hother heq.symm), if_neg hother]

end Heap

/-! ### Accounts -/

/-- An account of all references: those of others, by object, and a list of references of one's
own. -/
def Counts (outer : Nat → Nat) (refs : List (Value Nat)) (heap : Heap) : Prop :=
  ∀ address, heap.count address = outer address + refs.count (.object address)

/-- Someone has a reference to the object that a value is. -/
def Backed (outer : Nat → Nat) (refs : List (Value Nat)) (value : Value Nat) : Prop :=
  ∀ address, value = .object address → 0 < outer address ∨ .object address ∈ refs

/-- Whether a value is an object. -/
def Value.isObject {ρ : Type} : Value ρ → Bool
  | .object _ => true
  | _ => false

section Accounts

variable {outer : Nat → Nat} {refs refs' : List (Value Nat)} {heap : Heap} {value : Value Nat}
  {address : Nat}

namespace Backed

theorem of_mem (h : value ∈ refs) : Backed outer refs value :=
  fun _ hvalue => .inr (hvalue ▸ h)

theorem of_not_isObject (h : value.isObject = false) : Backed outer refs value := by
  rintro address rfl
  cases h

theorem mono (h : Backed outer refs value) (hrefs : refs ⊆ refs') : Backed outer refs' value :=
  fun address hvalue => (h address hvalue).imp_right (@hrefs _)

end Backed

namespace Counts

/-- One's own references can be listed in any order. -/
theorem perm (h : Counts outer refs heap) (hperm : refs.Perm refs') : Counts outer refs' heap :=
  fun address => (h address).trans (by rw [hperm.count_eq])

theorem count_pos (h : Counts outer refs heap) (hbacked : Backed outer refs (.object address)) :
    0 < heap.count address := by
  rw [h address]
  rcases hbacked address rfl with houter | hrefs
  · omega
  · have := count_pos_iff.mpr hrefs
    omega

/-- A value that is no object is no reference. -/
theorem cons_iff (h : value.isObject = false) :
    Counts outer (value :: refs) heap ↔ Counts outer refs heap := by
  have hcount : ∀ address, (value :: refs).count (.object address) = refs.count (.object address) :=
    fun address => count_cons_of_ne (by rintro rfl; cases h)
  simp only [Counts, hcount]

theorem create (h : Counts outer refs heap) (data : Data) :
    Counts outer (.object heap.length :: refs) (heap ++ [⟨data, 1⟩]) := by
  intro address
  rw [Heap.count_append, h address, count_cons, Nat.add_assoc]
  congr 2
  by_cases haddress : address = heap.length
  · simp [haddress]
  · rw [if_neg haddress, if_neg (by simpa using fun heq => haddress heq.symm)]

theorem retain (h : Counts outer refs heap) (hbacked : Backed outer refs (.object address)) :
    ∃ later, heap.recount address (· + 1) = some later ∧
      Counts outer (.object address :: refs) later := by
  obtain ⟨later, hlater, hcount⟩ := Heap.exists_recount (h.count_pos hbacked) (· + 1)
  refine ⟨later, hlater, fun other => ?_⟩
  rw [hcount, count_cons]
  by_cases hother : other = address
  · rw [if_pos hother, hother, h address]
    simp [Nat.add_assoc]
  · rw [if_neg hother, h other, if_neg (by simpa using fun heq => hother heq.symm), Nat.add_zero]

theorem release (h : Counts outer (.object address :: refs) heap) :
    ∃ later, heap.recount address (· - 1) = some later ∧ Counts outer refs later := by
  have hbacked : Backed outer (.object address :: refs) (.object address) :=
    .of_mem mem_cons_self
  obtain ⟨later, hlater, hcount⟩ := Heap.exists_recount (h.count_pos hbacked) (· - 1)
  refine ⟨later, hlater, fun other => ?_⟩
  rw [hcount]
  by_cases hother : other = address
  · rw [if_pos hother, hother, h address, count_cons_self, ← Nat.add_assoc, Nat.add_sub_cancel]
  · rw [if_neg hother, h other, count_cons_of_ne (by simpa using fun heq => hother heq.symm)]

/-- Where nothing is one's own, all references are those of others. -/
theorem self (heap : Heap) : Counts heap.count [] heap := fun _ => rfl

/-- What was done with nothing of one's own is done for any account of the same heap. -/
theorem trans {later : Heap} (h : Counts outer refs heap) (hlater : Counts heap.count refs' later) :
    Counts outer (refs' ++ refs) later := by
  intro address
  rw [hlater address, h address, count_append]
  omega

end Counts

end Accounts

/-! ### Actions -/

/-- From states with `P` on, an action ends with `Q`, or early for a reason that has nothing to do
with references. -/
abbrev Safe {α : Type} (P : State Nat Heap → Prop) (action : Run Nat Heap α)
    (Q : α → State Nat Heap → Prop) : Prop :=
  Holds P action Q fun halt => ¬ Miscounts halt

theorem not_miscounts_stuck : ¬ Miscounts .stuck := by
  simp [Miscounts]

theorem not_miscounts_depth : ¬ Miscounts .depth := by
  simp [Miscounts]

/-- The states with a given environment and a given account. -/
def Books (env : Env Nat) (outer : Nat → Nat) (refs : List (Value Nat)) (state : State Nat Heap) :
    Prop :=
  state.env = env ∧ Counts outer refs state.store

section Actions

variable {setting : Setting} {program : Program} {env : Env Nat} {outer : Nat → Nat}
  {refs : List (Value Nat)} {value : Value Nat} {name : String} {slot : Slot Nat} {before : Heap}

theorem Safe.stuck {α : Type} {P : State Nat Heap → Prop} {Q : α → State Nat Heap → Prop} :
    Safe P (throw .stuck) Q :=
  .throw not_miscounts_stuck

theorem safe_look {address : Nat} (h : Backed outer refs (.object address)) :
    Safe (Books env outer refs) ((counted setting program).look address) fun _ =>
      Books env outer refs := by
  intro state hstate
  obtain ⟨data, count, hobject, -⟩ := Heap.getElem?_of_count_pos (hstate.2.count_pos h)
  simp only [look, Memory.counted, hobject]
  exact hstate

/-- A value that has passed is on the heap only if the type is. -/
theorem safe_expect (h : Backed outer refs value) (type : String) :
    Safe (Books env outer refs) ((counted setting program).expect value type)
      fun _ state => Books env outer refs state ∧ (value.isObject = true → isHeap type = true) := by
  cases value with
  | nothing | static name => exact Safe.stuck
  | unset => exact .pure fun _ hstate => ⟨hstate, Bool.noConfusion⟩
  | truth =>
    rw [expect]
    split
    · exact .pure fun _ hstate => ⟨hstate, Bool.noConfusion⟩
    · exact Safe.stuck
  | object address =>
    rw [expect]
    refine Holds.bind (safe_look h) fun data => ?_
    split
    · next htype =>
      refine .pure fun _ hstate => ⟨hstate, fun _ => ?_⟩
      rw [← htype]
      cases data <;> rfl
    · exact Safe.stuck

/-- Values are on the heap only if the types of the parameters they are passed for are. -/
abbrev PassedOnHeap (values : List (Value Nat)) (parameters : List Parameter) : Prop :=
  Forall₂ (fun value parameter => value.isObject = true → isHeap parameter.type.text = true)
    values parameters

theorem safe_expectAll {values : List (Value Nat)} (h : ∀ value ∈ values, Backed outer refs value)
    (parameters : List Parameter) :
    Safe (Books env outer refs) ((counted setting program).expectAll values parameters)
      fun _ state => Books env outer refs state ∧ PassedOnHeap values parameters := by
  induction values generalizing parameters with
  | nil =>
    cases parameters with
    | nil => exact .pure fun _ hstate => ⟨hstate, .nil⟩
    | cons => exact Safe.stuck
  | cons value values ih =>
    cases parameters with
    | nil => exact Safe.stuck
    | cons parameter parameters =>
      rw [forall_mem_cons] at h
      rw [expectAll]
      refine Holds.step (safe_expect h.1 _) fun _ hfirst => ?_
      exact (ih h.2 parameters).weaken (fun _ => id) fun _ _ hrest =>
        ⟨hrest.1, .cons hfirst hrest.2⟩

theorem safe_create (data : Data) :
      Safe (Books env outer refs) ((counted setting program).create data)
      fun value state => Books env outer (value :: refs) state ∧ value.isObject = true :=
  fun _ hstate => ⟨⟨hstate.1, hstate.2.create data⟩, rfl⟩

/-- Values that no variable holds are no objects. -/
theorem not_isObject_of_global? (h : (counted setting program).global? name = some value) :
    value.isObject = false := by
  unfold global? at h
  split at h
  · cases h; rfl
  · split at h
    · cases h; rfl
    · split at h
      · cases h; rfl
      · cases h

/-- A variable whose object someone has a reference to can be read. -/
theorem safe_readName (h : ∀ slot, env.find name = some slot → Backed outer refs slot.value) :
    Safe (Books env outer refs) ((counted setting program).readName name)
      fun value state => Books env outer refs state ∧
        (∀ slot, env.find name = some slot → value = slot.value) ∧ Backed outer refs value := by
  unfold readName
  refine Holds.get_bind fun state hstate => ?_
  obtain ⟨rfl, hcounts⟩ := hstate
  cases hfind : state.env.find name with
  | some slot =>
    have hbacked := h slot hfind
    have hread : ∀ found, some slot = some found → slot.value = found.value := by
      rintro found ⟨⟩
      rfl
    dsimp only
    cases hvalue : slot.value with
    -- only an object is looked at, and someone has a reference to it
    | object =>
      rw [hvalue] at hbacked hread
      refine Holds.bind (Q := fun _ => Books state.env outer refs)
        (Holds.weaken (safe_look hbacked) ?_ fun _ _ => id) fun _ => .pure fun _ hstate =>
        ⟨hstate, hread, hbacked⟩
      rintro _ rfl
      exact ⟨rfl, hcounts⟩
    | nothing | unset | truth _ | static _ =>
      rw [hvalue] at hbacked hread
      refine .pure ?_
      rintro _ rfl
      exact ⟨⟨rfl, hcounts⟩, hread, hbacked⟩
  | none =>
    dsimp only
    cases hglobal : (counted setting program).global? name with
    | none => exact Safe.stuck
    | some =>
      refine .pure ?_
      rintro _ rfl
      exact ⟨⟨rfl, hcounts⟩, nofun, .of_not_isObject (not_isObject_of_global? hglobal)⟩

/-- What a name stands for that no variable has is no object. -/
theorem safe_readName_global (h : env.find name = none) :
    Safe (Books env outer refs) ((counted setting program).readName name)
      fun value state => Books env outer refs state ∧ value.isObject = false := by
  unfold readName
  refine Holds.get_bind fun state hstate => ?_
  obtain ⟨rfl, hcounts⟩ := hstate
  rw [h]
  dsimp only
  cases hglobal : (counted setting program).global? name with
  | none => exact Safe.stuck
  | some =>
    refine .pure ?_
    rintro _ rfl
    exact ⟨⟨rfl, hcounts⟩, not_isObject_of_global? hglobal⟩

/-- A value gets to a variable of the same type, and no count changes. -/
theorem safe_assign (h : Backed outer refs value) :
    Safe (Books env outer refs) ((counted setting program).assign name value)
      fun _ state => Books (Env.update name value env) outer refs state ∧
        ∃ slot, env.find name = some slot ∧ (value.isObject = true → isHeap slot.type = true) := by
  unfold assign
  refine Holds.get_bind fun state hstate => ?_
  obtain ⟨rfl, hcounts⟩ := hstate
  cases hfind : state.env.find name with
  | none => exact Safe.stuck
  | some slot =>
    have hexpect : Safe (· = state) ((counted setting program).expect value slot.type)
        fun _ found =>
        Books state.env outer refs found ∧ (value.isObject = true → isHeap slot.type = true) :=
      (safe_expect h slot.type).weaken (by rintro _ rfl; exact ⟨rfl, hcounts⟩) fun _ _ => id
    refine Holds.step hexpect fun _ htype => Holds.modifyEnv fun found hfound => ?_
    exact ⟨⟨congrArg _ hfound.1, hfound.2⟩, slot, rfl, htype⟩

theorem safe_retain (hfind : env.find name = some slot) (h : Backed outer refs slot.value) :
    Safe (Books env outer refs) ((counted setting program).retain name)
      fun _ => Books env outer (slot.value :: refs) := by
  rintro state ⟨rfl, hcounts⟩
  have hretain : (counted setting program).retain name state =
      Machine.recount Memory.counted.retain (state.env.find name) state := rfl
  rw [hretain, hfind]
  unfold Machine.recount
  dsimp only
  cases hvalue : slot.value with
  | object =>
    obtain ⟨later, hlater, hcounts'⟩ := hcounts.retain (hvalue ▸ h)
    simp only [Memory.counted, hlater]
    exact ⟨rfl, hcounts'⟩
  | nothing | unset | truth _ | static _ => exact ⟨rfl, (Counts.cons_iff rfl).mpr hcounts⟩

theorem safe_release {location : Location} (hfind : env.findAt name location = some slot) :
    Safe (Books env outer (slot.value :: refs)) ((counted setting program).release name location)
      fun _ => Books env outer refs := by
  rintro state ⟨rfl, hcounts⟩
  have hrelease : (counted setting program).release name location state =
      Machine.recount Memory.counted.release (state.env.findAt name location) state := rfl
  rw [hrelease, hfind]
  unfold Machine.recount
  dsimp only
  cases hvalue : slot.value with
  | object =>
    rw [hvalue] at hcounts
    obtain ⟨later, hlater, hcounts'⟩ := hcounts.release
    simp only [Memory.counted, hlater]
    exact ⟨rfl, hcounts'⟩
  | nothing | unset | truth _ | static _ =>
    rw [hvalue] at hcounts
    exact ⟨rfl, (Counts.cons_iff rfl).mp hcounts⟩

/-! ### The outside world -/

theorem safe_emit (event : Event) : Safe (Books env outer refs) (emit event) fun _ =>
    Books env outer refs :=
  fun _ hstate => hstate

theorem safe_print (h : Backed outer refs value) :
      Safe (Books env outer refs) ((counted setting program).print value) fun result state =>
        Books env outer refs state ∧ result.isObject = false := by
  unfold print
  cases value with
  | unset => exact Holds.bind (safe_emit _) fun _ => .pure fun _ hstate => ⟨hstate, rfl⟩
  | object =>
    refine Holds.bind (safe_look h) fun data => ?_
    cases data with
    | integer => exact Safe.stuck
    | text => exact Holds.bind (safe_emit _) fun _ => .pure fun _ hstate => ⟨hstate, rfl⟩
  | nothing | truth holds | static name => exact Safe.stuck

theorem safe_input : Safe (Books env outer refs) (counted setting program).input
      fun result => Books env outer (result :: refs) :=
  fun _ hstate => ⟨hstate.1, hstate.2.create _⟩

/-- Only what is no object decides about a body. -/
theorem safe_branch : Safe (Books env outer refs) ((counted setting program).branch value)
      fun _ state => Books env outer refs state ∧ value.isObject = false := by
  cases value with
  | truth holds | unset => exact fun _ hstate => ⟨hstate, rfl⟩
  | nothing | object address | static name => exact fun _ _ => not_miscounts_stuck

/-! ### Calls -/

/-- A call that has left one reference behind, to its value, is balanced. -/
theorem Counts.balanced {after : Heap} (h : Counts before.count [value] after) :
    before.balanced after value = true := by
  refine all_eq_true.mpr fun address _ => decide_eq_true ?_
  rw [h address, count_singleton]
  simp only [beq_iff_eq]

theorem safe_audit :
      Safe (Books env before.count [value]) ((counted setting program).audit before value)
      fun _ => Books env before.count [value] := by
  unfold audit
  refine Holds.get_bind fun state hstate => ?_
  have hbalanced : (counted setting program).memory.balanced before state.store value = true :=
    hstate.2.balanced
  rw [hbalanced]
  refine .pure ?_
  rintro _ rfl
  exact hstate

theorem safe_conclude {returnType : Option Name} {result : Option (Value Nat)}
    (h : ∀ value ∈ result, Backed outer refs value) :
    Safe (Books env outer refs) ((counted setting program).conclude returnType result)
      fun value state =>
      Books env outer refs state ∧ (result = none ∧ value.isObject = false ∨ result = some value) ∧
        (value.isObject = true → (returnType.map Name.text).any isHeap = true) := by
  cases returnType with
  | none =>
    cases result with
    | none => exact .pure fun _ hstate => ⟨hstate, .inl ⟨rfl, rfl⟩, nofun⟩
    | some => exact Safe.stuck
  | some =>
    cases result with
    | none => exact Safe.stuck
    | some value =>
      refine Holds.step (safe_expect (h value rfl) _) fun _ htype => .pure fun _ hstate => ?_
      exact ⟨hstate, .inr rfl, htype⟩

end Actions

end FrontEnd.Execution
