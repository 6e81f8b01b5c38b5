import FrontEnd.Proofs.Refcount.Hoist
import Mathlib.Data.List.Nodup

/-!
# Where the variables of lowering are

Lowering knows the variables of a function by their names and their places, and a run has a slot for
each of them (`Laid`). A run has more slots than that: a temporary that was released is not taken
out of its frame. Such slots are *dead*. No part of the program names them, as their names were new
when they were made, and no other slot has the name of a dead one.

So a name that is not dead stands for the slot of the variable that lowering thinks it stands for
(`Laid.find`), and the name of a variable together with its place tells its slot from all others
(`Laid.findAt`).
-/

open List

namespace FrontEnd.Refcount

/-- What tells a variable from all others of its function. -/
def Local.placed (v : Local) : String × Location :=
  (v.name, v.location)

/-- All that a slot has in common with its variable. -/
def Local.key (v : Local) : String × String × Location :=
  (v.name, v.type, v.location)

namespace Frames

variable {frames : Frames} {name : String} {v : Local}

theorem declareAll_cons (locals top : List Local) (frames : Frames) :
    locals.foldl declare (top :: frames) = (locals.reverse ++ top) :: frames := by
  induction locals generalizing top with
  | nil => rfl
  | cons v locals ih =>
    rw [foldl_cons, declare, ih, reverse_cons, append_assoc, singleton_append]

theorem flatten_declareAll (h : frames ≠ []) (locals : List Local) :
    (locals.foldl declare frames).flatten = locals.reverse ++ frames.flatten := by
  cases frames with
  | nil => exact absurd rfl h
  | cons =>
    rw [declareAll_cons, flatten_cons, append_assoc]
    rfl

theorem flatten_declare (h : frames ≠ []) (v : Local) :
    (frames.declare v).flatten = v :: frames.flatten :=
  flatten_declareAll h [v]

theorem lookup_declare (h : frames ≠ []) (v : Local) :
    (frames.declare v).lookup v.name = some v := by
  rw [lookup, flatten_declare h]
  exact find?_cons_of_pos (by simp)

theorem declareAll_ne_nil (h : frames ≠ []) (locals : List Local) :
    locals.foldl declare frames ≠ [] := by
  intro hnil
  have hlength := length_declareAll frames locals
  rw [hnil] at hlength
  exact h (eq_nil_of_length_eq_zero hlength.symm)

theorem mem_of_lookup (h : frames.lookup name = some v) : v ∈ frames.flatten ∧ v.name = name :=
  ⟨mem_of_find?_eq_some h,
    of_decide_eq_true (find?_some (p := fun v : Local => decide (v.name = name)) h)⟩

end Frames

end FrontEnd.Refcount

namespace FrontEnd.Execution

open Refcount

variable {ρ : Type}

/-- All that a variable has in common with its slot. -/
def Slot.key (slot : Slot ρ) : String × String × Location :=
  (slot.name, slot.type, slot.location)

theorem eq_slotOf {slot : Slot ρ} {v : Local} (h : slot.key = v.key) :
    slot = slotOf v slot.value := by
  obtain ⟨name, type, location, value⟩ := slot
  simp only [Slot.key, Local.key, Prod.mk.injEq] at h
  obtain ⟨rfl, rfl, rfl⟩ := h
  rfl

namespace Env

variable {env : Env ρ} {name : String} {slot : Slot ρ} {v : Local} {value : Value ρ}

/-! ### Slots by name and place -/

/-- The value of a variable. -/
def valueOf (env : Env ρ) (v : Local) : Value ρ :=
  match env.findAt v.name v.location with
  | some slot => slot.value
  | none => .unset

theorem name_of_find (h : env.find name = some slot) : slot.name = name :=
  of_decide_eq_true (find?_some (p := fun slot : Slot ρ => decide (slot.name = name)) h)

/-- What is found by name is found by name and place. -/
theorem findAt_of_find (h : env.find name = some slot) :
    env.findAt name slot.location = some slot := by
  unfold find findAt at *
  obtain ⟨hname, before, after, hsplit, hbefore⟩ := find?_eq_some_iff_append.mp h
  refine find?_eq_some_iff_append.mpr ⟨by simpa using hname, before, after, hsplit, ?_⟩
  intro other hother
  have := hbefore other hother
  simp_all

theorem findAt_declare (h : env ≠ []) (slot : Slot ρ) (name : String) (location : Location) :
    (env.declare slot).findAt name location =
      if slot.name = name ∧ slot.location = location then some slot
      else env.findAt name location := by
  cases env with
  | nil => exact absurd rfl h
  | cons =>
    simp only [declare, findAt, flatten_cons, cons_append, find?_cons]
    by_cases hname : slot.name = name <;> by_cases hlocation : slot.location = location <;>
      simp [hname, hlocation]

/-- Where a slot is found for one variable and the others are found as they were, the others keep
their values. -/
theorem valueOf_of_findAt {later : Env ρ} {w : Local} (h : later.findAt w.name w.location =
      if v.name = w.name ∧ v.location = w.location then some (slotOf v value)
      else env.findAt w.name w.location) :
        later.valueOf w = if v.placed = w.placed then value else env.valueOf w := by
  have hsame : v.placed = w.placed ↔ v.name = w.name ∧ v.location = w.location := by
    simp [Local.placed]
  unfold valueOf
  rw [h]
  by_cases hplaced : v.placed = w.placed
  · rw [if_pos (hsame.mp hplaced), if_pos hplaced]
    rfl
  · rw [if_neg (fun heq => hplaced (hsame.mpr heq)), if_neg hplaced]

theorem valueOf_declare (h : env ≠ []) (v w : Local) (value : Value ρ) :
    (env.declare (slotOf v value)).valueOf w =
      if v.placed = w.placed then value else env.valueOf w :=
  valueOf_of_findAt (findAt_declare h _ _ _)

theorem find?_updateFrame_placed {frame : List (Slot ρ)}
    (h : frame.find? (·.name = name) = some slot) (value : Value ρ) (other : String)
    (location : Location) :
    (updateFrame name value frame).find?
      (fun found => found.name = other && found.location = location) =
      if name = other ∧ slot.location = location then some { slot with value := value }
      else frame.find? fun found => found.name = other && found.location = location := by
  induction frame with
  | nil => cases h
  | cons first frame ih =>
    rw [updateFrame]
    by_cases hfirst : first.name = name
    · rw [find?_cons_of_pos (by simpa using hfirst), Option.some.injEq] at h
      subst h
      rw [if_pos hfirst, find?_cons, find?_cons]
      by_cases hother : name = other <;> by_cases hlocation : first.location = location <;>
        simp [hfirst, hother, hlocation]
    · rw [find?_cons_of_neg (by simpa using hfirst)] at h
      rw [if_neg hfirst, find?_cons, find?_cons, ih h]
      by_cases hother : first.name = other
      · have hne : name ≠ other := fun heq => hfirst (hother.trans heq.symm)
        simp [hne]
      · simp [hother]

/-- A new value for a name changes the value of the variable that the name stands for, and of no
other. -/
theorem valueOf_update (h : env.find name = some (slotOf v value)) (new : Value ρ) (w : Local) :
    (update name new env).valueOf w = if v.placed = w.placed then new else env.valueOf w := by
  refine valueOf_of_findAt ?_
  have hname : v.name = name := name_of_find h
  unfold findAt
  rw [flatten_update, find?_updateFrame_placed h, ← hname]
  rfl

end Env

/-! ### Layouts -/

/-- The slots that are not dead are those of the variables, frame by frame. All names of slots are
taken, and the program names no dead ones. -/
structure Laid (own taken dead : List String) (frames : Frames) (env : Env ρ) : Prop where
  keys : env.map (fun frame => (frame.map Slot.key).filter (·.1 ∉ dead)) =
    frames.map (·.map Local.key)
  distinct : (frames.flatten.map Local.placed).Nodup
  inside : frames ≠ []
  slots : ∀ slot ∈ env.flatten, slot.name ∈ taken
  own_taken : own ⊆ taken
  named : ∀ name ∈ own, name ∉ dead
  dead_taken : dead ⊆ taken

namespace Laid

variable {own taken later dead : List String} {frames : Frames} {env : Env ρ} {v : Local}
  {name : String} {top locals : List Local}

section

variable (h : Laid own taken dead frames env)
include h

theorem ne_nil : env ≠ [] := by
  rintro rfl
  exact h.inside (map_eq_nil_iff.mp h.keys.symm)

theorem flatten_keys :
    (env.flatten.filter (·.name ∉ dead)).map Slot.key = frames.flatten.map Local.key := by
  have hkeys := congrArg List.flatten h.keys
  rw [← map_flatten] at hkeys
  rw [← hkeys, filter_flatten, map_flatten, map_map]
  simp only [filter_map]
  rfl

/-- No variable is dead. -/
theorem name_not_mem_dead (hv : v ∈ frames.flatten) : v.name ∉ dead := by
  have hkey := mem_map_of_mem (f := Local.key) hv
  rw [← h.flatten_keys] at hkey
  obtain ⟨slot, hslot, hkey⟩ := mem_map.mp hkey
  have hname : slot.name = v.name := congrArg Prod.fst hkey
  rw [← hname]
  simpa using (mem_filter.mp hslot).2

theorem name_mem_taken (hv : v ∈ frames.flatten) : v.name ∈ taken := by
  have hkey := mem_map_of_mem (f := Local.key) hv
  rw [← h.flatten_keys] at hkey
  obtain ⟨slot, hslot, hkey⟩ := mem_map.mp hkey
  have hname : slot.name = v.name := congrArg Prod.fst hkey
  exact hname ▸ h.slots slot (mem_filter.mp hslot).1

/-- A search among the slots that finds no dead ones is a search among the variables. -/
theorem find?_key (wanted : String × String × Location → Bool)
    (hwanted : ∀ slot : Slot ρ, wanted slot.key = true → slot.name ∉ dead) :
    (env.flatten.find? fun slot => wanted slot.key).map Slot.key =
      (frames.flatten.find? fun v => wanted v.key).map Local.key := by
  have hlive : (env.flatten.find? fun slot => wanted slot.key) =
      (env.flatten.filter (·.name ∉ dead)).find? fun slot => wanted slot.key := by
    rw [find?_filter]
    congr 1
    funext slot
    cases hslot : wanted slot.key with
    | false => simp
    | true => simpa using hwanted slot hslot
  have hfound := congrArg (List.find? wanted) h.flatten_keys
  rw [find?_map, find?_map] at hfound
  rw [hlive]
  exact hfound

/-- A variable has a slot, which is the only one with its name and its place. -/
theorem findAt (hv : v ∈ frames.flatten) :
    env.findAt v.name v.location = some (slotOf v (env.valueOf v)) := by
  have hfind := h.find?_key (fun key => key.1 = v.name && key.2.2 = v.location) fun slot hslot => by
    have hname : slot.name = v.name := of_decide_eq_true (Bool.and_eq_true_iff.mp hslot).1
    exact hname ▸ h.name_not_mem_dead hv
  -- among the variables, it is the only one there
  have hself : (frames.flatten.find? fun w => w.key.1 = v.name && w.key.2.2 = v.location) =
      some v := by
    cases hfound : frames.flatten.find? fun w => w.key.1 = v.name && w.key.2.2 = v.location with
    | none => simpa [Local.key] using find?_eq_none.mp hfound v hv
    | some w =>
      have hsame := find?_some hfound
      rw [Bool.and_eq_true] at hsame
      have hplaced : w.placed = v.placed :=
        Prod.ext (of_decide_eq_true hsame.1) (of_decide_eq_true hsame.2)
      rw [inj_on_of_nodup_map h.distinct (mem_of_find?_eq_some hfound) hv hplaced]
  rw [hself] at hfind
  obtain ⟨slot, hslot, hkey⟩ := Option.map_eq_some_iff.mp hfind
  have hfound : env.findAt v.name v.location = some slot := hslot
  rw [Env.valueOf, hfound]
  exact congrArg some (eq_slotOf hkey)

/-- A name that is not dead stands for the slot of its variable. -/
theorem find (hname : name ∉ dead) : env.find name = (frames.lookup name).map fun v =>
    slotOf v (env.valueOf v) := by
  have hfind := h.find?_key (fun key => key.1 = name) fun slot hslot => by
    have hslot : slot.name = name := of_decide_eq_true hslot
    exact hslot ▸ hname
  have hlookup : (frames.flatten.find? fun v => v.key.1 = name) = frames.lookup name := rfl
  rw [hlookup] at hfind
  cases hv : frames.lookup name with
  | none =>
    rw [hv] at hfind
    exact Option.map_eq_none_iff.mp hfind
  | some v =>
    rw [hv] at hfind
    obtain ⟨slot, hslot, hkey⟩ := Option.map_eq_some_iff.mp hfind
    have hfound : env.find name = some slot := hslot
    have hslot : slot = slotOf v slot.value := eq_slotOf hkey
    have hvname : v.name = name := (Frames.mem_of_lookup hv).2
    have hplaced := Env.findAt_of_find hfound
    rw [hslot, ← hvname] at hplaced
    have hvalue : env.valueOf v = slot.value := by
      rw [Env.valueOf]
      exact congrArg
        (fun found => match found with | some slot => slot.value | none => .unset) hplaced
    rw [hfound, Option.map_some, hvalue, ← hslot]

end

/-! ### How layouts change -/

section

variable (h : Laid own taken dead frames env)
include h

theorem mono (htaken : taken ⊆ later) : Laid own later dead frames env :=
  ⟨h.keys, h.distinct, h.inside, fun slot hslot => htaken (h.slots slot hslot),
    Subset.trans h.own_taken htaken, h.named, Subset.trans h.dead_taken htaken⟩

/-- A new variable gets a slot. -/
theorem declare (hdead : v.name ∉ dead) (htaken : v.name ∈ taken)
    (hplaced : v.placed ∉ frames.flatten.map Local.placed) (value : Value ρ) :
    Laid own taken dead (frames.declare v) (env.declare (slotOf v value)) := by
  obtain ⟨hkeys, hdistinct, hinside, hslots, hown, hnamed, hdead_taken⟩ := h
  cases frames with
  | nil => exact absurd rfl hinside
  | cons =>
    cases env with
    | nil => cases hkeys
    | cons =>
      refine ⟨?_, nodup_cons.mpr ⟨hplaced, hdistinct⟩, cons_ne_nil _ _, fun slot hslot => ?_, hown,
        hnamed, hdead_taken⟩
      · simp only [map_cons, cons.injEq] at hkeys
        simp only [Env.declare, Frames.declare, map_cons, hkeys.2]
        rw [filter_cons_of_pos (by exact decide_eq_true hdead), hkeys.1]
        rfl
      · rw [Env.declare, flatten_cons, cons_append, mem_cons] at hslot
        rcases hslot with rfl | hslot
        · exact htaken
        · exact hslots slot hslot

/-- New values change nothing about where variables are. -/
theorem update (name : String) (value : Value ρ) :
    Laid own taken dead frames (Env.update name value env) := by
  refine ⟨?_, h.distinct, h.inside, fun slot hslot => ?_, h.own_taken, h.named, h.dead_taken⟩
  · have hkeys := congrArg (List.map (List.filter (·.1 ∉ dead)))
      (Env.map_update Slot.key (fun _ _ => rfl) name value env)
    simp only [map_map] at hkeys
    exact hkeys.trans h.keys
  · have hnames := Env.map_update (fun slot : Slot ρ => slot.name) (fun _ _ => rfl) name value env
    have hmem := mem_map_of_mem (f := fun slot : Slot ρ => slot.name) hslot
    rw [map_flatten, hnames, ← map_flatten] at hmem
    obtain ⟨found, hfound, heq⟩ := mem_map.mp hmem
    exact heq ▸ h.slots found hfound

theorem push : Laid own taken dead ([] :: frames) ([] :: env) :=
  ⟨congrArg ([] :: ·) h.keys, h.distinct, cons_ne_nil _ _, h.slots, h.own_taken,
    h.named, h.dead_taken⟩

end

/-- The end of a body inside of another one. -/
theorem pop (h : Laid own taken dead (top :: frames) env) (hframes : frames ≠ []) :
    Laid own taken dead frames env.tail := by
  obtain ⟨hkeys, hdistinct, -, hslots, hown, hnamed, hdead⟩ := h
  cases env with
  | nil => cases hkeys
  | cons frame =>
    rw [flatten_cons, map_append] at hdistinct
    exact ⟨(cons.inj hkeys).2, (nodup_append.mp hdistinct).2.1, hframes,
      fun slot hslot => hslots slot (mem_append_right frame hslot), hown, hnamed, hdead⟩

/-- The variables of the bodies around keep their values. -/
theorem valueOf_tail (h : Laid own taken dead (top :: frames) env) (hv : v ∈ frames.flatten) :
    Env.valueOf env.tail v = env.valueOf v := by
  cases env with
  | nil => rfl
  | cons frame outer =>
    have hdead : v.name ∉ dead := h.name_not_mem_dead (mem_append_right _ hv)
    have hnone : frame.find? (fun slot => slot.name = v.name && slot.location = v.location) =
        none := by
      refine find?_eq_none.mpr fun slot hslot hsame => ?_
      simp only [Bool.and_eq_true, decide_eq_true_eq] at hsame
      -- otherwise the innermost body had a variable of the same name and place
      have hmem : slot.key ∈ (frame.map Slot.key).filter (·.1 ∉ dead) :=
        mem_filter.mpr ⟨mem_map_of_mem hslot, by simpa [Slot.key, hsame.1] using hdead⟩
      have hkeys : (frame.map Slot.key).filter (·.1 ∉ dead) = top.map Local.key :=
        (cons.inj h.keys).1
      rw [hkeys] at hmem
      obtain ⟨w, hw, hkey⟩ := mem_map.mp hmem
      simp only [Local.key, Slot.key, Prod.mk.injEq] at hkey
      have hdistinct := h.distinct
      rw [flatten_cons, map_append] at hdistinct
      refine (nodup_append.mp hdistinct).2.2 _ (mem_map_of_mem hw) _ (mem_map_of_mem hv) ?_
      exact Prod.ext (hkey.1.trans hsame.1) (hkey.2.2.trans hsame.2)
    have hfind : Env.findAt (frame :: outer) v.name v.location =
        Env.findAt outer v.name v.location := by
      unfold Env.findAt
      rw [flatten_cons, find?_append, hnone, Option.none_or]
    unfold Env.valueOf
    rw [tail_cons, hfind]

theorem filter_key_eq_self {names : List String} (h : ∀ v ∈ locals, v.name ∉ names) :
    (locals.map Local.key).filter (·.1 ∉ names) = locals.map Local.key := by
  refine filter_eq_self.mpr fun key hkey => ?_
  obtain ⟨v, hv, rfl⟩ := mem_map.mp hkey
  exact decide_eq_true (h v hv)

/-- Variables that are of no use any more are dead from there on. -/
theorem forget (h : Laid own taken dead (locals.foldl Frames.declare frames) env)
    (hown : ∀ v ∈ locals, v.name ∉ own)
    (hfree : ∀ w ∈ frames.flatten, w.name ∉ locals.map (·.name)) :
    Laid own taken (locals.map (·.name) ++ dead) frames env := by
  cases frames with
  | nil => exact absurd (eq_nil_of_length_eq_zero (Frames.length_declareAll [] locals)) h.inside
  | cons top frames =>
    rw [Frames.declareAll_cons] at h
    refine ⟨?_, ?_, cons_ne_nil _ _, h.slots, h.own_taken, fun name hname hdead =>
      ?_, fun name hname => ?_⟩
    · -- what was kept so far, without these variables
      have hkeys := congrArg (List.map (List.filter (·.1 ∉ locals.map (·.name)))) h.keys
      have hhidden : (locals.reverse.map Local.key).filter (·.1 ∉ locals.map (·.name)) = [] := by
        refine filter_eq_nil_iff.mpr fun key hkey => ?_
        obtain ⟨v, hv, rfl⟩ := mem_map.mp hkey
        simpa using ⟨v, mem_reverse.mp hv, rfl⟩
      have htop : (top.map Local.key).filter (·.1 ∉ locals.map (·.name)) = top.map Local.key :=
        filter_key_eq_self fun w hw => hfree w (mem_append_left _ hw)
      have hrest : ∀ frame ∈ frames, (frame.map Local.key).filter (·.1 ∉ locals.map (·.name)) =
          frame.map Local.key := fun frame hframe => filter_key_eq_self fun w hw =>
        hfree w (mem_append_right _ (mem_flatten.mpr ⟨frame, hframe, hw⟩))
      simp only [map_map, map_cons, Function.comp_def, map_append, filter_append,
        hhidden, htop, nil_append, map_congr_left hrest, filter_filter] at hkeys
      rw [map_cons, ← hkeys]
      simp only [mem_append, not_or, Bool.decide_and]
    · have hdistinct := h.distinct
      rw [flatten_cons, append_assoc, map_append] at hdistinct
      exact (nodup_append.mp hdistinct).2.1
    · rcases mem_append.mp hdead with hlocal | hdead
      · obtain ⟨v, hv, rfl⟩ := mem_map.mp hlocal
        exact hown v hv hname
      · exact h.named name hname hdead
    · rcases mem_append.mp hname with hlocal | hdead
      · obtain ⟨v, hv, rfl⟩ := mem_map.mp hlocal
        exact h.name_mem_taken (by simp [hv])
      · exact h.dead_taken hdead

end Laid

end FrontEnd.Execution
