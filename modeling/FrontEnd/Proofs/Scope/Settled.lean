import FrontEnd.Proofs.Scope.Direct

/-!
# What the noted effects amount to

A scope with effects stands for a stack on which these effects have been done: a variable is used on
the stack if it is used at its level or if some level further in has noted that it is read, and
likewise for having a value. `settle` computes this stack from the levels of a scope, going from the
inside to the outside with the effects met so far.

Looking a name up on the stack gives what the scope says about it (`find_settle`), noting an effect
in the scope changes the stack at the variable that the name stands for (`settle_note`), and handing
effects on to the next level does not change the stack at all (`settle_apply`). The last one holds
for effects in any order, since the stack depends on the members of the two sets alone.

All this is about well-formed levels (`Nested`): the depth of a level is the number of levels around
it, and every effect is about a variable of a body further out. Reading and giving a value are the
two values of `Flag`.
-/

namespace FrontEnd

open Direct List

variable {effects : Effects} {address : Address} {levels outer : List Level} {level : Level}
  {name : String} {binding : Binding}

/-! ### Flags -/

/-- What can be noted about a variable: that it is read, or that it gets a value. -/
inductive Flag where
  | used
  | initialized
deriving DecidableEq

/-- A variable of which one more thing is known. -/
def Variable.raise (v : Variable) : Flag → Variable
  | .used => { v with used := true }
  | .initialized => { v with initialized := true }

/-- The addresses for which something is noted. -/
def Effects.noted (effects : Effects) : Flag → List Address
  | .used => effects.used
  | .initialized => effects.initialized

/-- Effects with one more note. -/
def Effects.note (effects : Effects) (flag : Flag) (address : Address) : Effects :=
  match flag with
  | .used => { effects with used := effects.used.insert address }
  | .initialized => { effects with initialized := effects.initialized.insert address }

theorem Effects.mem_noted_note {flag flag' : Flag} {other : Address} :
      other ∈ (effects.note flag address).noted flag' ↔ other ∈ effects.noted flag' ∨ flag' = flag ∧
        other = address := by
  cases flag <;> cases flag' <;> simp [note, noted, mem_insert_iff, or_comm]

/-- Marks the variable of a body, at the level itself or by a note about another level. -/
def Level.mark (level : Level) (flag : Flag) (address : Address) : Level :=
  match flag with
  | .used => level.markUsed address.2 .inner address.1
  | .initialized => level.markInitialized address.2 address.1

theorem Level.mark_eq (level : Level) (flag : Flag) (address : Address) : level.mark flag address =
      if address.1 = level.depth then
        { level with table := level.table.adjust address.2 (·.raise flag) }
      else { level with outer := level.outer.note flag address } := by
  cases flag <;> simp [mark, markUsed, markInitialized, Variable.raise, Effects.note]

@[simp] theorem Level.mark_depth (level : Level) (flag : Flag) (address : Address) :
    (level.mark flag address).depth = level.depth := by
  rw [mark_eq]; split <;> rfl

@[simp] theorem Level.mark_kind (level : Level) (flag : Flag) (address : Address) :
    (level.mark flag address).kind = level.kind := by
  rw [mark_eq]; split <;> rfl

/-- Marking a variable takes no name away. -/
theorem Level.isSome_lookup_mark (level : Level) (flag : Flag) (address : Address) (name : String) :
    ((level.mark flag address).table.lookup name).isSome = (level.table.lookup name).isSome := by
  rw [mark_eq]
  split
  · rw [Table.lookup_adjust]
    split
    · exact Option.isSome_map
    · rfl
  · rfl

/-- A level hands effects on to itself by marking one variable after the other. -/
theorem Level.apply_eq (level : Level) (effects : Effects) : level.apply effects =
      (effects.noted .initialized).foldl (·.mark .initialized ·)
        ((effects.noted .used).foldl (·.mark .used ·) level) := rfl

theorem Level.kind_foldl_mark (level : Level) (flag : Flag) (addresses : List Address) :
    (addresses.foldl (·.mark flag ·) level).kind = level.kind := by
  induction addresses generalizing level with
  | nil => rfl
  | cons address addresses ih => rw [foldl_cons, ih, mark_kind]

theorem Level.depth_foldl_mark (level : Level) (flag : Flag) (addresses : List Address) :
    (addresses.foldl (·.mark flag ·) level).depth = level.depth := by
  induction addresses generalizing level with
  | nil => rfl
  | cons address addresses ih => rw [foldl_cons, ih, mark_depth]

@[simp] theorem Level.apply_kind (level : Level) (effects : Effects) :
    (level.apply effects).kind = level.kind := by
  rw [apply_eq, kind_foldl_mark, kind_foldl_mark]

/-! ### Levels that can come up -/

/-- Some of the levels has a variable at the given address, and it is the level of a body. -/
def Home (levels : List Level) (address : Address) : Prop :=
  ∃ level ∈ levels, level.depth = address.1 ∧ level.kind = .inner ∧
    (level.table.lookup address.2).isSome

/-- The depth of a level counts the levels around it, its effects are about variables of bodies
around it, and the names outside of bodies are all in use. -/
def Nested : List Level → Prop
  | [] => True
  | level :: outer =>
    level.depth = outer.length ∧
    (∀ flag, ∀ address ∈ level.outer.noted flag, Home outer address) ∧
    (level.kind ≠ .inner → ∀ entry ∈ level.table, entry.2.used = true) ∧
    Nested outer

theorem Nested.depth_lt (h : Nested levels) (hmem : level ∈ levels) :
    level.depth < levels.length := by
  induction levels with
  | nil => cases hmem
  | cons first outer ih =>
    obtain ⟨hdepth, -, -, houter⟩ := h
    rw [length_cons]
    rcases mem_cons.mp hmem with rfl | hmem
    · omega
    · have := ih houter hmem
      omega

/-- A home at another depth than the first level is a home further out. -/
theorem Home.of_cons (h : Home (level :: outer) address) (hne : address.1 ≠ level.depth) :
    Home outer address := by
  obtain ⟨home, hmem, hdepth, hkind, hsome⟩ := h
  rcases mem_cons.mp hmem with rfl | hmem
  · exact absurd hdepth.symm hne
  · exact ⟨home, hmem, hdepth, hkind, hsome⟩

/-- Marking a variable that has a home keeps levels well-formed. -/
theorem Nested.mark (h : Nested (level :: outer)) (flag : Flag)
    (hhome : Home (level :: outer) address) :
    Nested (level.mark flag address :: outer) := by
  obtain ⟨hdepth, hnoted, hoften, houter⟩ := h
  rw [Level.mark_eq]
  split
  · refine ⟨hdepth, hnoted, fun hkind entry hentry => ?_, houter⟩
    obtain ⟨old, hold, rfl⟩ := mem_map.mp hentry
    have hused := hoften hkind old hold
    obtain ⟨name, v⟩ := old
    simp only at hused ⊢
    split
    · cases flag <;> simp [Variable.raise, hused]
    · exact hused
  · next hne =>
    refine ⟨hdepth, fun flag' other hother => ?_, hoften, houter⟩
    rcases Effects.mem_noted_note.mp hother with hother | ⟨-, rfl⟩
    · exact hnoted flag' other hother
    · exact hhome.of_cons hne

/-- Marking a variable takes no home away. -/
theorem Home.mark (h : Home (level :: outer) address) (flag : Flag) (marked : Address) :
    Home (level.mark flag marked :: outer) address := by
  obtain ⟨home, hmem, hdepth, hkind, hsome⟩ := h
  rcases mem_cons.mp hmem with rfl | hmem
  · refine ⟨_, mem_cons_self, by simpa using hdepth, by simpa using hkind, ?_⟩
    rw [Level.isSome_lookup_mark]
    exact hsome
  · exact ⟨home, mem_cons_of_mem _ hmem, hdepth, hkind, hsome⟩

/-! ### Settling -/

/-- The effects met so far on the way from the inside to the outside. -/
abbrev Pending := Flag → Address → Bool

namespace Pending

variable {address other : Address}

/-- No effects. -/
def none : Pending := fun _ _ => false

/-- The effects met so far together with those of one more level. -/
def add (pending : Pending) (effects : Effects) : Pending := fun flag address =>
  pending flag address || (effects.noted flag).contains address

/-- The effects met so far and one more. -/
def note (pending : Pending) (flag : Flag) (address : Address) : Pending := fun flag' other =>
  pending flag' other || decide (flag' = flag ∧ other = address)

/-- What becomes of a variable when the effects are done. -/
def onto (pending : Pending) (address : Address) (v : Variable) : Variable :=
  { v with
    used := v.used || pending .used address
    initialized := v.initialized || pending .initialized address }

/-- What becomes of the variables of a level when the effects are done. -/
def ontoTable (pending : Pending) (depth : Nat) (table : Table) : Table :=
  table.map fun (name, v) => (name, pending.onto (depth, name) v)

@[simp] theorem add_empty (pending : Pending) : pending.add {} = pending := by
  funext flag address
  cases flag <;> simp [add, Effects.noted]

@[simp] theorem none_onto (address : Address) (v : Variable) : none.onto address v = v := by
  simp [none, onto]

@[simp] theorem none_ontoTable (depth : Nat) (table : Table) :
    none.ontoTable depth table = table := by
  simp [ontoTable]

/-- An effect on a variable raises its flag. -/
theorem note_onto_self (pending : Pending) (flag : Flag) (address : Address) (v : Variable) :
    (pending.note flag address).onto address v = (pending.onto address v).raise flag := by
  cases flag <;> simp [note, onto, Variable.raise]

/-- A raised flag stays up whatever is met. -/
theorem onto_raise (pending : Pending) (flag : Flag) (address : Address) (v : Variable) :
    pending.onto address (v.raise flag) = (pending.onto address v).raise flag := by
  cases flag <;> simp [onto, Variable.raise]

theorem note_apply_of_ne (pending : Pending) (flag flag' : Flag) (hne : other ≠ address) :
    pending.note flag address flag' other = pending flag' other := by
  simp [note, hne]

theorem note_onto_of_ne (pending : Pending) (flag : Flag) (hne : other ≠ address) (v : Variable) :
    (pending.note flag address).onto other v = pending.onto other v := by
  simp only [onto, note_apply_of_ne pending flag _ hne]

theorem add_note (pending : Pending) (effects : Effects) (flag : Flag) (address : Address) :
    (pending.note flag address).add effects = (pending.add effects).note flag address := by
  funext flag' other
  simp only [add, note]
  rw [Bool.or_right_comm]

theorem add_effects_note (pending : Pending) (effects : Effects) (flag : Flag) (address : Address) :
    pending.add (effects.note flag address) = (pending.add effects).note flag address := by
  funext flag' other
  rw [Bool.eq_iff_iff]
  simp [add, note, Effects.mem_noted_note, or_assoc]

theorem lookup_ontoTable (pending : Pending) (depth : Nat) (table : Table) (name : String) :
    (pending.ontoTable depth table).lookup name =
      (table.lookup name).map (pending.onto (depth, name)) := by
  induction table with
  | nil => rfl
  | cons entry table ih =>
    obtain ⟨other, v⟩ := entry
    simp only [ontoTable, map_cons, lookup_cons] at ih ⊢
    by_cases h : name = other
    · subst h; simp
    · have hne : (name == other) = false := by simpa using h
      rw [hne]; exact ih

/-- Effects at another depth do nothing to a level. -/
theorem note_ontoTable_of_ne (pending : Pending) (flag : Flag) {depth : Nat}
    (hne : address.1 ≠ depth) (table : Table) :
    (pending.note flag address).ontoTable depth table = pending.ontoTable depth table := by
  refine map_congr_left fun entry _ => ?_
  obtain ⟨name, v⟩ := entry
  simp only
  rw [note_onto_of_ne]
  rintro rfl
  exact hne rfl

/-- An effect at the depth of a level raises the flag of one variable there, after all other
effects. -/
theorem note_ontoTable (pending : Pending) (flag : Flag) (depth : Nat) (name : String)
    (table : Table) :
    (pending.note flag (depth, name)).ontoTable depth table =
      (pending.ontoTable depth table).adjust name (·.raise flag) := by
  simp only [ontoTable, Table.adjust, map_map]
  refine map_congr_left fun entry _ => ?_
  obtain ⟨other, v⟩ := entry
  simp only [Function.comp_apply]
  split
  · next h => subst h; rw [note_onto_self]
  · next h => rw [note_onto_of_ne _ _ (by simpa using h)]

/-- The same before all other effects. -/
theorem ontoTable_adjust (pending : Pending) (flag : Flag) (depth : Nat) (name : String)
    (table : Table) :
    pending.ontoTable depth (table.adjust name (·.raise flag)) =
      (pending.note flag (depth, name)).ontoTable depth table := by
  rw [note_ontoTable]
  simp only [ontoTable, Table.adjust, map_map]
  refine map_congr_left fun entry _ => ?_
  obtain ⟨other, v⟩ := entry
  simp only [Function.comp_apply]
  split
  · next h => rw [onto_raise]
  · rfl

end Pending

/-- The stack that some levels stand for, after the effects met so far and those of the levels. -/
def settle (pending : Pending) : List Level → Stack
  | [] => []
  | level :: outer =>
    ⟨level.kind, pending.ontoTable level.depth level.table, level.returns, level.output⟩ ::
      settle (pending.add level.outer) outer

/-- The stack that a scope stands for. -/
def Scope.settled (scope : Scope) : Stack :=
  settle .none scope.levels

/-- An effect at a depth where there is no level does nothing. -/
theorem settle_note_of_le (h : Nested levels) (pending : Pending) (flag : Flag)
    (hle : levels.length ≤ address.1) :
    settle (pending.note flag address) levels = settle pending levels := by
  induction levels generalizing pending with
  | nil => rfl
  | cons level outer ih =>
    obtain ⟨hdepth, -, -, houter⟩ := h
    rw [length_cons] at hle
    simp only [settle]
    rw [Pending.note_ontoTable_of_ne _ _ (by omega), Pending.add_note, ih houter _ (by omega)]

/-! ### Looking names up -/

/-- The innermost variable with the given name. -/
def lookupIn (levels : List Level) (name : String) : Option Binding :=
  levels.findSome? fun level =>
    (level.table.lookup name).map fun found => ⟨found, level.kind, level.depth⟩

theorem lookupIn_cons (level : Level) (outer : List Level) (name : String) :
    lookupIn (level :: outer) name =
      match level.table.lookup name with
      | some found => some ⟨found, level.kind, level.depth⟩
      | none => lookupIn outer name := by
  simp only [lookupIn, findSome?_cons]
  cases level.table.lookup name <;> rfl

/-- A variable that is found stands at one of the levels. -/
theorem exists_level_of_lookupIn (h : lookupIn levels name = some binding) :
    ∃ level ∈ levels, level.depth = binding.depth ∧ level.kind = binding.kind ∧
      level.table.lookup name = some binding.found := by
  obtain ⟨level, hlevel, hfound⟩ := exists_of_findSome?_eq_some h
  simp only [Option.map_eq_some_iff] at hfound
  obtain ⟨found, hlookup, rfl⟩ := hfound
  exact ⟨level, hlevel, rfl, rfl, hlookup⟩

theorem depth_lt_of_lookupIn (h : Nested levels) (hfound : lookupIn levels name = some binding) :
    binding.depth < levels.length := by
  obtain ⟨level, hmem, hdepth, -, -⟩ := exists_level_of_lookupIn hfound
  exact hdepth ▸ h.depth_lt hmem

/-- A variable of a body that is found has a home. -/
theorem home_of_lookupIn (hfound : lookupIn levels name = some binding)
    (hkind : binding.kind = .inner) :
    Home levels (binding.depth, name) := by
  obtain ⟨level, hmem, hdepth, hlevel, hlookup⟩ := exists_level_of_lookupIn hfound
  exact ⟨level, hmem, hdepth, hlevel.trans hkind, by simp [hlookup]⟩

/-- Whether a variable has a value by the effects met so far and those of the levels inside of its
own. -/
def hasValue (pending : Pending) (levels : List Level) (name : String) (binding : Binding) : Bool :=
  (binding.found.initialized || pending .initialized (binding.depth, name)) ||
    (levels.takeWhile fun level => binding.depth < level.depth).any fun level =>
      level.outer.initialized.contains (binding.depth, name)

/-- **What the stack says about a name.** It finds the variable that the levels have, with a value
if the variable has one by the effects. -/
theorem find_settle (h : Nested levels) (pending : Pending) (name : String) :
    match lookupIn levels name with
    | none => (settle pending levels).find name = none
    | some binding => ∃ found, (settle pending levels).find name = some (found, binding.kind) ∧
        found.entity = binding.found.entity ∧ found.definedAt = binding.found.definedAt ∧
        found.initialized = hasValue pending levels name binding := by
  induction levels generalizing pending with
  | nil => rfl
  | cons level outer ih =>
    obtain ⟨hdepth, -, -, houter⟩ := h
    rw [lookupIn_cons]
    simp only [settle, Stack.find, Pending.lookup_ontoTable]
    cases hlookup : level.table.lookup name with
    | some =>
      -- no level is further in than the one of the variable
      exact ⟨_, rfl, rfl, rfl, by simp [hasValue, Pending.onto]⟩
    | none =>
      specialize ih houter (pending.add level.outer)
      simp only [Option.map_none]
      cases hfound : lookupIn outer name with
      | none => simpa only [hfound] using ih
      | some binding =>
        simp only [hfound] at ih
        obtain ⟨found, hfind, hentity, hplace, hinitialized⟩ := ih
        refine ⟨found, hfind, hentity, hplace, ?_⟩
        have hlt : binding.depth < level.depth := hdepth ▸ depth_lt_of_lookupIn houter hfound
        rw [hinitialized]
        simp only [hasValue, Pending.add, Effects.noted, takeWhile_cons, decide_eq_true hlt,
          if_true, any_cons, Bool.or_assoc]

/-! ### Noting an effect -/

/-- **Noting an effect changes one variable of the stack**, the one that the name stands for. -/
theorem settle_note (h : Nested levels) (pending : Pending) (flag : Flag)
    (hfound : lookupIn levels name = some binding) :
    settle (pending.note flag (binding.depth, name)) levels =
      (settle pending levels).update name (·.raise flag) := by
  induction levels generalizing pending with
  | nil => simp [lookupIn] at hfound
  | cons level outer ih =>
    obtain ⟨hdepth, -, -, houter⟩ := h
    rw [lookupIn_cons] at hfound
    simp only [settle, Stack.update, Pending.lookup_ontoTable]
    cases hlookup : level.table.lookup name with
    | some =>
      -- the variable stands at this level, and the levels further out do not see the effect
      rw [hlookup] at hfound
      cases hfound
      simp only [Option.map_some]
      rw [Pending.note_ontoTable, Pending.add_note,
        settle_note_of_le houter _ _ (Nat.le_of_eq hdepth.symm)]
    | none =>
      -- the variable stands further out, and this level does not see the effect
      rw [hlookup] at hfound
      have hlt : binding.depth < level.depth := hdepth ▸ depth_lt_of_lookupIn houter hfound
      simp only [Option.map_none]
      rw [Pending.note_ontoTable_of_ne _ _ (Nat.ne_of_lt hlt), Pending.add_note, ih houter _ hfound]

/-- Marking a variable at a level amounts to an effect on it, wherever it stands. -/
theorem settle_mark (h : Nested outer) (hdepth : level.depth = outer.length)
    (pending : Pending) (flag : Flag) (address : Address) :
    settle pending (level.mark flag address :: outer) =
      settle (pending.note flag address) (level :: outer) := by
  obtain ⟨depth, name⟩ := address
  rw [Level.mark_eq]
  split
  · next heq =>
    simp only at heq
    subst heq
    simp only [settle]
    rw [Pending.ontoTable_adjust, Pending.add_note,
      settle_note_of_le h _ _ (Nat.le_of_eq hdepth.symm)]
  · next hne =>
    simp only [settle]
    rw [Pending.note_ontoTable_of_ne _ _ hne, Pending.add_note, Pending.add_effects_note]

/-! ### Handing effects on -/

/-- Marking several variables amounts to an effect on each of them. -/
theorem settle_foldl_mark (h : Nested outer) (flag : Flag) (addresses : List Address)
    (hdepth : level.depth = outer.length) (pending : Pending) :
    settle pending (addresses.foldl (·.mark flag ·) level :: outer) =
        settle (fun flag' other =>
          pending flag' other ||
            (decide (flag' = flag) && addresses.contains other)) (level :: outer) := by
  induction addresses generalizing level with
  | nil => simp
  | cons address addresses ih =>
    rw [foldl_cons, ih (by rw [Level.mark_depth, hdepth]), settle_mark h hdepth]
    congr 1
    funext flag' other
    rw [Bool.eq_iff_iff]
    simp only [Pending.note, Bool.or_eq_true, Bool.and_eq_true, decide_eq_true_eq,
      contains_iff_mem, mem_cons]
    grind

/-- **Handing effects on does not change the stack.** What a level does with effects in any order is
what they amount to when they are met on the way to it. -/
theorem settle_apply (h : Nested (level :: outer)) {arranged : Effects}
    (hused : arranged.used.Perm effects.used)
    (hinitialized : arranged.initialized.Perm effects.initialized) (pending : Pending) :
    settle pending (level.apply arranged :: outer) =
      settle (pending.add effects) (level :: outer) := by
  obtain ⟨hdepth, -, -, houter⟩ := h
  have hdepth' : ((arranged.noted .used).foldl (·.mark .used ·) level).depth = outer.length := by
    rw [Level.depth_foldl_mark, hdepth]
  rw [Level.apply_eq, settle_foldl_mark houter _ _ hdepth', settle_foldl_mark houter _ _ hdepth]
  congr 1
  funext flag other
  rw [Bool.eq_iff_iff]
  cases flag
  · simp [Pending.add, Effects.noted, hused.mem_iff]
  · simp [Pending.add, Effects.noted, hinitialized.mem_iff]

/-- Handing on effects that have a home keeps levels well-formed. -/
theorem Nested.apply (h : Nested (level :: outer))
    (hhome : ∀ flag, ∀ address ∈ effects.noted flag, Home (level :: outer) address) :
    Nested (level.apply effects :: outer) := by
  have hfold : ∀ (flag : Flag) (addresses : List Address) (level : Level),
      Nested (level :: outer) → (∀ address ∈ addresses, Home (level :: outer) address) →
      Nested (addresses.foldl (·.mark flag ·) level :: outer) ∧
      ∀ address, Home (level :: outer) address →
      Home (addresses.foldl (·.mark flag ·) level :: outer) address := by
    intro flag addresses
    induction addresses with
    | nil => exact fun level h _ => ⟨h, fun _ hhome => hhome⟩
    | cons address addresses ih =>
      intro level h hhome
      obtain ⟨hnested, hkeep⟩ :=
        ih (level.mark flag address) (h.mark flag (hhome address mem_cons_self))
        fun other hother => (hhome other (mem_cons_of_mem _ hother)).mark flag address
      exact ⟨hnested, fun other hother => hkeep other (hother.mark flag address)⟩
  rw [Level.apply_eq]
  obtain ⟨hnested, hkeep⟩ := hfold .used _ level h (hhome .used)
  exact (hfold .initialized _ _ hnested fun address haddress =>
    hkeep address (hhome .initialized address haddress)).1

end FrontEnd
