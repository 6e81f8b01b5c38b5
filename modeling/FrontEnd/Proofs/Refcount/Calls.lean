import FrontEnd.Proofs.Refcount.Balance
import FrontEnd.Proofs.Refcount.Behaviour

/-!
# Calls of lowered functions

A lowered function gets its arguments without references to them. Its parameters have borrowed their
objects, and those that get new values take references of their own first. With this, all references
of the function are those of its variables, and so they are when the body is over: then none are
left but one to the value (`safe_lowered`). So a call changes no count but that of its value, and
this is what the calls in its own body rely on, one level further down (`callsOwn_lowered`).
-/

open List

namespace FrontEnd.Refcount

variable {v : Local}

/-- The variables that the parameters of a function are. -/
def Lower.parameters (function : FunctionDef) : List Local :=
  function.parameters.map (ofParameter (assignedNamesOfAll function.body))

/-- A function that lowering can deal with. -/
structure Suited (types : ReturnTypes) (own : List String) (function : FunctionDef) : Prop where
  names : function.toStmt.names ⊆ own
  tidy : tidyAll types function.body = true
  parameters : (function.parameters.map (·.name.text)).Nodup
  /-- No two variables have one name and one place. -/
  places : function.places.Nodup

namespace Suited

variable {types : ReturnTypes} {own : List String} {function : FunctionDef}

theorem body_names (h : Suited types own function) : Stmt.namesOfAll function.body ⊆ own :=
  Subset.trans (body_subset_names function) h.names

theorem parameter_mem (h : Suited types own function) {v : Local}
    (hv : v ∈ Lower.parameters function) :
    v.name ∈ own := by
  obtain ⟨parameter, hparameter, rfl⟩ := mem_map.mp hv
  exact h.names (parameter_mem_names hparameter)

theorem placed_parameters (function : FunctionDef) : (Lower.parameters function).map Local.placed =
      function.parameters.map fun parameter => (parameter.name.text, parameter.name.location) := by
  rw [Lower.parameters, map_map]
  rfl

theorem nodup_placed (h : Suited types own function) :
    ((Lower.parameters function).reverse.map Local.placed).Nodup := by
  rw [map_reverse, nodup_reverse, placed_parameters]
  exact (nodup_append.mp h.places).1

theorem nodup_names (h : Suited types own function) :
    ((Lower.parameters function).reverse.map (·.name)).Nodup := by
  have hnames : (Lower.parameters function).map (·.name) =
      function.parameters.map (·.name.text) := by
    rw [Lower.parameters, map_map]
    rfl
  rw [map_reverse, nodup_reverse, hnames]
  exact h.parameters

/-- The body can be lowered behind the parameters. -/
theorem fit (h : Suited types own function) :
    Fit types own [(Lower.parameters function).reverse] function.body where
  inside := cons_ne_nil _ _
  names := h.body_names
  tidy := h.tidy
  distinct := (nodup_append.mp h.places).2.1
  new := by
    intro place hplace hmem
    rw [flatten_singleton, map_reverse, mem_reverse, placed_parameters] at hmem
    exact (nodup_append.mp h.places).2.2 _ hmem _ hplace rfl
  borrowed := by
    intro v hv howned hheap
    rw [flatten_singleton, mem_reverse] at hv
    obtain ⟨parameter, -, rfl⟩ := mem_map.mp hv
    have hassigned : (isHeap parameter.type.text &&
        (Lower.assignedNamesOfAll function.body).contains parameter.name.text) = false := howned
    have hheap : isHeap parameter.type.text = true := hheap
    rw [hheap, Bool.true_and] at hassigned
    have hnot : parameter.name.text ∉ Lower.assignedNamesOfAll function.body := by
      simpa using hassigned
    exact hnot

end Suited

/-- A parameter has a reference of its own only if its type is on the heap. -/
theorem isCounted_parameter {function : FunctionDef} (hv : v ∈ Lower.parameters function) :
    v.isCounted = v.owned := by
  obtain ⟨parameter, -, rfl⟩ := mem_map.mp hv
  simp only [Local.isCounted, Lower.ofParameter]
  cases isHeap parameter.type.text <;> simp

/-- Where names differ, each of them stands for its variable. -/
theorem Frames.lookup_of_nodup {frames : Frames} (h : (frames.flatten.map (·.name)).Nodup)
    (hv : v ∈ frames.flatten) :
    frames.lookup v.name = some v := by
  cases hlookup : frames.lookup v.name with
  | none => exact absurd (decide_eq_true rfl) (find?_eq_none.mp hlookup v hv)
  | some =>
    obtain ⟨hmem, hname⟩ := mem_of_lookup hlookup
    rw [inj_on_of_nodup_map h hmem hv hname]

end FrontEnd.Refcount

namespace FrontEnd.Execution

open Refcount
open FunctionDef (toStmt)

section Calls

variable {setting : Setting} {program : Program} {types : ReturnTypes}
  {call : Machine.Caller Nat Heap} {own taken : List String} {outer : Nat → Nat}
  {function output : FunctionDef} {values : List (Value Nat)} {env : Env Nat}
  {refs : List (Value Nat)}

/-! ### The start of a function -/

/-- What a slot holds at the start of a function was passed for its parameter. -/
theorem mem_ofArguments {parameters : List Parameter} {slot : Slot Nat}
    (h : slot ∈ (Env.ofArguments parameters values).flatten) :
    ∃ parameter value, (value, parameter) ∈ values.zip parameters ∧
      slot = ⟨parameter.name.text, parameter.type.text, parameter.name.location, value⟩ := by
  rw [Env.ofArguments, flatten_singleton, mem_reverse] at h
  induction parameters generalizing values with
  | nil => cases h
  | cons parameter parameters ih =>
    cases values with
    | nil => cases h
    | cons value =>
      rw [zipWith_cons_cons, mem_cons] at h
      rcases h with rfl | h
      · exact ⟨parameter, value, mem_cons_self, rfl⟩
      · obtain ⟨found, passed, hmem, hslot⟩ := ih h
        exact ⟨found, passed, mem_cons_of_mem _ hmem, hslot⟩

/-- Variables take references to what they hold. -/
theorem safe_retains {locals : List Local}
    (h : ∀ v ∈ locals,
      env.find v.name = some (slotOf v (env.valueOf v)) ∧ Backed outer [] (env.valueOf v)) :
    Safe (Books env outer refs) (runAll setting program call
      (locals.map fun v => .retain v.name v.location))
      (GoesOn (Books env outer (locals.map env.valueOf ++ refs))) := by
  induction locals generalizing refs with
  | nil => exact .pure fun _ hrun => ⟨rfl, hrun⟩
  | cons v locals ih =>
    rw [forall_mem_cons] at h
    rw [map_cons, runAll, Machine.execAll, Machine.exec, bind_assoc]
    refine Holds.bind (safe_retain h.1.1 (h.1.2.mono (nil_subset _))) fun _ => ?_
    rw [pure_bind]
    refine (ih h.2).weaken (fun _ => id) fun _ run hrun => ⟨hrun.1, hrun.2.1, ?_⟩
    exact hrun.2.2.perm perm_middle

section

variable (h : Suited types own function) (hown : own ⊆ taken)
  (hvalues : PassedOnHeap values function.parameters)
  (houter : ∀ address, .object address ∈ values → 0 < outer address)
include h hown hvalues houter

/-- At its start a function has what was passed to it, which others have references to. -/
theorem owning_start :
    Owning own taken outer [(Lower.parameters function).reverse]
      (Env.ofArguments function.parameters values) ∧
      ∀ v ∈ Lower.parameters function,
      Backed outer [] ((Env.ofArguments function.parameters values).valueOf v) := by
  have hkeys : (Env.ofArguments function.parameters values).map (·.map Slot.key) =
      [(Lower.parameters function).reverse.map Local.key] := by
    rw [Env.map_ofArguments Slot.key (fun parameter =>
      (parameter.name.text, parameter.type.text, parameter.name.location)) (fun _ _ => rfl)
      hvalues.length_eq, map_reverse, Lower.parameters, map_map]
    rfl
  have hmem : ∀ slot ∈ (Env.ofArguments function.parameters values).flatten, slot.name ∈ own := by
    intro slot hslot
    obtain ⟨parameter, value, hzip, rfl⟩ := mem_ofArguments hslot
    exact h.parameter_mem (mem_map_of_mem (of_mem_zip hzip).2)
  -- the slots are those of the parameters, newest first, and nothing has been forgotten yet
  have hlaid : Laid own taken [] [(Lower.parameters function).reverse]
      (Env.ofArguments function.parameters values) := by
    refine ⟨?_, ?_, cons_ne_nil _ _, fun slot hslot => hown (hmem slot hslot), hown, by
      simp, nil_subset _⟩
    · simpa using hkeys
    · rw [flatten_singleton]
      exact h.nodup_placed
  -- an object in a slot was passed, so its type is on the heap and the caller can vouch for it
  have hpassed : ∀ v ∈ Lower.parameters function, ∀ address,
      (Env.ofArguments function.parameters values).valueOf v = .object address →
      isHeap v.type = true ∧ 0 < outer address := by
    intro v hv address hvalue
    have hslot := hlaid.findAt (v := v) (by simpa using hv)
    obtain ⟨parameter, value, hzip, heq⟩ := mem_ofArguments (mem_of_find?_eq_some hslot)
    obtain ⟨-, htype, -, hpassed⟩ := Slot.mk.inj heq
    rw [hvalue] at hpassed
    subst hpassed
    have hheap := (forall₂_iff_zip.mp hvalues).2 hzip rfl
    exact ⟨htype ▸ hheap, houter address (of_mem_zip hzip).1⟩
  refine ⟨⟨⟨[], hlaid⟩, fun v hv address hvalue => ?_⟩, fun v hv address hvalue => ?_⟩
  · obtain ⟨hheap, hpos⟩ := hpassed v (by simpa using hv) address hvalue
    exact ⟨hheap, fun _ => hpos⟩
  · exact .inl (hpassed v hv address hvalue).2

/-- Behind the references that parameters take, all references of a function are those of its
variables. -/
theorem safe_prologue :
    Safe (Books (Env.ofArguments function.parameters values) outer []) (runAll setting program call
        (((Lower.parameters function).filter (·.owned)).map fun v => .retain v.name v.location))
      (GoesOn (Owned own taken outer [(Lower.parameters function).reverse] [])) := by
  obtain ⟨howning, hbacked⟩ := owning_start h hown hvalues houter
  generalize Env.ofArguments function.parameters values = env at howning hbacked
  have hmem : ∀ v ∈ (Lower.parameters function).filter (·.owned),
      v ∈ List.flatten [(Lower.parameters function).reverse] := by
    intro v hv
    rw [flatten_singleton, mem_reverse]
    exact mem_of_mem_filter hv
  refine (safe_retains fun v hv => ⟨?_, ?_⟩).weaken (fun _ => id)
    fun _ run hrun => ⟨hrun.1, .of_books howning (by simp [Hollow]) ⟨hrun.2.1, ?_⟩⟩
  · have hlookup : Frames.lookup [(Lower.parameters function).reverse] v.name = some v := by
      refine Frames.lookup_of_nodup ?_ (hmem v hv)
      rw [flatten_singleton]
      exact h.nodup_names
    rw [howning.find (mem_append_right _ (mem_map_of_mem (hmem v hv))), hlookup]
    rfl
  · exact hbacked v (mem_of_mem_filter hv)
  · -- the parameters that count are those that have taken references
    have hfilter :
        (Lower.parameters function).filter Local.isCounted =
          (Lower.parameters function).filter (·.owned) :=
      filter_congr fun v hv => isCounted_parameter hv
    have hcounts := hrun.2.2
    rw [append_nil, ← hfilter] at hcounts
    rw [flatten_singleton]
    exact hcounts.perm (holdings_perm (reverse_perm _).symm)

end

/-! ### Functions -/

section

variable (hcall : CallsOwn types call) (h : Suited types own function)
  (hlowered : LoweredFrom types own function output)
include hcall h hlowered

/-- **A lowered function leaves no reference behind**, but for one to its value. -/
theorem safe_lowered (hvalues : PassedOnHeap values function.parameters)
    (houter : ∀ address, .object address ∈ values → 0 < outer address) :
    Safe (Books (Env.ofArguments function.parameters values) outer [])
      (runAll setting program call output.body)
      fun result run => Counts outer result.toList run.store := by
  obtain ⟨context, htypes, hown, rfl⟩ := hlowered
  have hblock : Safe (Owned own (Lowering.start context function).names.taken outer
        (Lowering.start context function).frames [])
      (runAll setting program call (Lower.block none function.body (.start context function)).1)
      (Balances own (Lower.block none function.body (.start context function)).2.names.taken outer
        (Lower.block none function.body (.start context function)).2.frames []
        (endsWithResult function.body)) :=
    safe_block hcall function.body none h.fit htypes hown
  have hreturns :
      ∀ result run, Returns outer result run → Counts outer result.toList run.store := by
    rintro _ run ⟨value, rfl, hcounts⟩
    exact hcounts
  rw [Context.lowerFunction_eq]
  refine safe_append (safe_prologue h hown hvalues houter) ?_
  cases hends : endsWithResult function.body with
  | true =>
    -- the body does not get to its end, so it has released everything when it returned
    rw [hends] at hblock
    rw [if_pos rfl]
    refine hblock.weaken (fun _ => id) fun result run hrun => hreturns result run ?_
    exact hrun.resolve_left (by simp)
  | false =>
    -- only the frame of the function itself is left, and what is in it is released now
    obtain ⟨top, hframes⟩ :
        ∃ top, (Lower.block none function.body (.start context function)).2.frames = [top] := by
      have hgrown := Lower.grown_block none function.body (Lowering.start context function)
      exact length_eq_one_iff.mp hgrown.length
    rw [hends, hframes] at hblock
    rw [if_neg Bool.false_ne_true, hframes, Frames.releaseInnermost, headD_cons]
    refine safe_append_returns (hblock.weaken (fun _ => id) fun _ _ hrun => hrun.imp_left And.right)
      (safe_releaseInnermost.weaken (fun _ => id) ?_) hreturns
    rintro _ run ⟨rfl, -, hcounts⟩
    exact hcounts

/-- A call of a lowered function changes no count, but for one more reference to its value. -/
theorem safe_invoke (hvalues : ∀ value ∈ values, Backed outer refs value) :
    Safe (Books env outer refs) ((counted setting program).invoke ((counted setting program).eval
      call) output values) fun value run => Books env outer (value :: refs) run ∧
        (value.isObject = true → (output.returnType.map Name.text).any isHeap = true) := by
  have hhead := sameHead_lowered hlowered
  unfold Machine.invoke
  refine Holds.step (safe_expectAll hvalues _) fun _ hheap =>
    Holds.get_bind fun before hbefore => ?_
  rw [hhead.parameters] at hheap ⊢
  -- from here on, all references that were there are those of others
  have houter : ∀ address, .object address ∈ values → 0 < before.store.count address :=
    fun address hmem => hbefore.2.count_pos (hvalues _ hmem)
  refine Holds.bind (Q := fun _ => Books (Env.ofArguments function.parameters values)
    before.store.count []) (Holds.modifyEnv ?_) fun _ => ?_
  · rintro _ rfl
    exact ⟨rfl, Counts.self _⟩
  refine Holds.bind (safe_lowered hcall h hlowered hheap houter) fun result => ?_
  refine Holds.bind (Q := fun _ => Books env before.store.count result.toList)
    (Holds.modifyEnv fun run hrun => ⟨hbefore.1, hrun⟩) fun _ => ?_
  -- what the function returns is backed by the reference that is handed over
  have hbacked : ∀ value ∈ result, Backed before.store.count result.toList value :=
    fun value hvalue => .of_mem (Option.mem_toList.mpr hvalue)
  refine Holds.step (safe_conclude hbacked) fun value hvalue => ?_
  refine Holds.bind (Q := fun _ => Books env before.store.count [value])
    (safe_audit.weaken (fun run hrun => ⟨hrun.1, ?_⟩) fun _ _ => id) fun _ =>
    .pure fun run hrun => ?_
  · rcases hvalue.1 with ⟨rfl, hobject⟩ | rfl
    · exact (Counts.cons_iff hobject).mpr hrun.2
    · exact hrun.2
  · exact ⟨⟨hrun.1, hbefore.2.trans hrun.2⟩, hvalue.2⟩

end

end Calls

/-! ### Programs -/

/-- The functions of a program that were lowered, as those who count see them. -/
abbrev countedFile (setting : Setting) (functions : List FunctionDef) : Machine Nat Heap :=
  counted setting (functions.map toStmt)

section Programs

variable {setting : Setting} {own : List String} {functions lowered : List FunctionDef}

/-- The built-in functions keep to the rules: `print` borrows what it writes, and `input` hands over
what it has read. -/
theorem safe_builtin {types : ReturnTypes} {program : Program} {name : String}
    {values : List (Value Nat)} {action : Run Nat Heap (Value Nat)} {env : Env Nat}
    {outer : Nat → Nat} {refs : List (Value Nat)}
    (h : (counted setting program).builtin? name values = some action)
    (hinput : types.lookup "input" = some (some "String"))
    (hvalues : ∀ value ∈ values, Backed outer refs value) :
    Safe (Books env outer refs) action fun value run => Books env outer (value :: refs) run ∧
      (value.isObject = true → (types.lookup name).join.any isHeap = true) := by
  unfold Machine.builtin? at h
  split at h
  · next value =>
    cases h
    refine (safe_print (hvalues value (mem_singleton_self _))).weaken (fun _ => id) ?_
    rintro result run ⟨⟨henv, hcounts⟩, hobject⟩
    exact ⟨⟨henv, (Counts.cons_iff hobject).mpr hcounts⟩, by simp [hobject]⟩
  · cases h
    rw [hinput]
    exact safe_input.weaken (fun _ => id) fun _ _ hrun => ⟨hrun, fun _ => rfl⟩
  · cases h

/-- **Calls of lowered functions hand over one reference**, however deep they are nested. -/
theorem callsOwn_lowered (hnodup : (functions.map (·.name)).Nodup)
    (hfree : ∀ function ∈ functions, function.name ≠ "print" ∧ function.name ≠ "input")
    (hlowered : Forall₂ (LoweredFrom (.ofProgram (functions.map toStmt)) own) functions lowered)
    (hsuited : ∀ function ∈ functions, Suited (.ofProgram (functions.map toStmt)) own function)
    (depth : Nat) :
    CallsOwn (.ofProgram (functions.map toStmt))
      ((countedFile setting lowered).call (countedFile setting lowered).eval depth) := by
  have hinput : (ReturnTypes.ofProgram (functions.map toStmt)).lookup "input" =
      some (some "String") := by
    have hnone : functions.find? (·.name = "input") = none :=
      find?_eq_none.mpr fun function hmem hsame =>
        (hfree function hmem).2 (of_decide_eq_true hsame)
    rw [lookup_ofProgram hnodup, hnone]
    rfl
  intro name values env outer refs hvalues
  cases hbuiltin : (countedFile setting lowered).builtin? name values with
  | some =>
    rw [Machine.call_builtin hbuiltin]
    exact safe_builtin hbuiltin hinput hvalues
  | none =>
    rcases find?_forall₂ sameHead_lowered hlowered name with
      ⟨-, hnone⟩ | ⟨function, output, hfunction, houtput, hmem, hpair⟩
    · rw [Machine.call_undefined hbuiltin (by rw [definition?_eq, hnone])]
      exact Safe.stuck
    · -- the calls in the body of the function are one level further down
      cases depth with
      | zero =>
        rw [Machine.call_zero hbuiltin (by rw [definition?_eq, houtput])]
        exact .throw not_miscounts_depth
      | succ depth =>
        rw [Machine.call_succ hbuiltin (by rw [definition?_eq, houtput]),
          lookup_ofProgram hnodup, hfunction]
        dsimp only
        rw [← (sameHead_lowered hpair).returnType]
        exact safe_invoke (callsOwn_lowered hnodup hfree hlowered hsuited depth)
          (hsuited function hmem) hpair hvalues

end Programs

end FrontEnd.Execution
