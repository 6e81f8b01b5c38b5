import FrontEnd.Proofs.Refcount.Ownership
import FrontEnd.Proofs.Refcount.Tidy

/-!
# Lowered statements balance their references

Behind every lowered statement all references of the function are again those of its variables
(`safe_statement`), or the function has returned, and of all its references one to the value is
left. In between a statement may have temporaries, which are variables as long as they are there.

A variable whose declaration stands right in front of an assignment is filled without a release, so
it has to be known that it holds no object. This is what the statement in front leaves behind
(`declaredBy`).
-/

open List

namespace FrontEnd.Refcount

open Lower

variable {frames : Frames} {name : String} {v : Local}

/-- The variable that the statement in front has declared, which has no value yet. -/
def declaredBy (previous : Option Stmt) (frames : Frames) : List Local :=
  match previous with
  | some (.declaration _ name _) => (frames.lookup name).toList
  | _ => []

theorem declaredBy_eq {previous : Option Stmt} (h : previous.any (·.declares name) = true)
    (hv : frames.lookup name = some v) : declaredBy previous frames = [v] := by
  cases previous with
  | none => cases h
  | some stmt =>
    cases stmt with
    | declaration type declared =>
      have hname : declared = name := of_decide_eq_true h
      simp [declaredBy, hname, hv]
    | expression | assignment | conditional | result | function | retain | release => cases h

theorem releases_append (locals locals' : List Local) :
    releases (locals ++ locals') = releases locals ++ releases locals' := by
  rw [releases, filter_append, map_append]
  rfl

/-- Whatever is not the variable that a name stands for is among the others. -/
theorem Frames.perm_of_lookup (h : frames.lookup name = some v) :
    frames.flatten.Perm (v :: frames.flatten.eraseP (·.name = name)) := by
  obtain ⟨hname, before, after, hsplit, hbefore⟩ := find?_eq_some_iff_append.mp h
  rw [hsplit, eraseP_append_right _ fun w hw => by simpa using hbefore w hw,
    eraseP_cons_of_pos (p := fun w : Local => decide (w.name = name)) hname]
  exact perm_middle

namespace Lower

variable {own : List String} {state : Lowering} {value : Expr}

theorem flatten_hoistedFrames (hinside : state.frames ≠ []) (value : Expr) :
      (hoistedFrames value state).flatten =
        ((hoist value state).1.2.map Temp.place).reverse ++ state.frames.flatten :=
  Frames.flatten_declareAll hinside _

/-- The temporaries hide no variable of the program. -/
theorem lookup_hoistedFrames (hown : own ⊆ state.names.taken) (hinside : state.frames ≠ [])
    {name : String} (hname : name ∈ own) :
    (hoistedFrames value state).lookup name = state.frames.lookup name := by
  rw [Frames.lookup, flatten_hoistedFrames hinside, find?_append, find?_eq_none.mpr, Option.none_or]
  · rfl
  · intro v hv heq
    have hsame : v.name = name := of_decide_eq_true heq
    exact (mem_places_hoist hown (mem_reverse.mp hv)).2 (hsame ▸ hname)

/-- What is left of an expression names variables of the program and its temporaries. -/
theorem names_hoist {types : ReturnTypes} (hnames : value.names ⊆ own)
    (htypes : state.returnTypes = types) (hinside : state.frames ≠ []) :
    (hoist value state).1.1.names ⊆ own ++ (hoistedFrames value state).flatten.map (·.name) := by
  refine Subset.trans (setUp_hoist value hnames htypes).2.2 ?_
  rw [flatten_hoistedFrames hinside]
  intro name hname
  simp only [mem_append, mem_map, map_append, map_reverse, map_map, mem_reverse,
    Function.comp_apply] at hname ⊢
  exact hname.imp_right .inl

end Lower

end FrontEnd.Refcount

namespace FrontEnd.Execution

open Refcount Lower Machine

/-- A run that has returned a value: of all references of the function one to the value is left. -/
def Returns (outer : Nat → Nat) (result : Option (Value Nat)) (state : State Nat Heap) : Prop :=
  ∃ value, result = some value ∧ Counts outer [value] state.store

/-- The end of a statement or a body: it goes on, which it does not if it ends with a return, or it
has returned. -/
def Balances (own taken : List String) (outer : Nat → Nat) (frames : Frames) (hollow : List Local)
    (ends : Bool) (result : Option (Value Nat)) (state : State Nat Heap) : Prop :=
  (ends = false ∧ GoesOn (Owned own taken outer frames hollow) result state) ∨
    Returns outer result state

section Statements

variable {setting : Setting} {program : Program} {types : ReturnTypes}
  {call : Machine.Caller Nat Heap} {own taken later : List String} {outer : Nat → Nat}
  {frames : Frames} {hollow hollow' : List Local} {v : Local} {state : Lowering} {value : Expr}
  {type : String} {temp : Temp} {target name : Name} {run : State Nat Heap} {env : Env Nat}
  {top : List Local}

/-! ### Temporaries around a statement -/

section

variable (hcall : CallsOwn types call) (hnames : value.names ⊆ own)
  (htypes : state.returnTypes = types)
include hcall hnames htypes

theorem safe_hoist : Safe (Owned own state.names.taken outer state.frames hollow)
      (runAll setting program call ((Lower.hoist value state).1.2.flatMap Temp.setup))
      (GoesOn (Owned own (Lower.hoist value state).2.names.taken outer
        (Lower.hoistedFrames value state) hollow)) := by
  have hnew := newTemps_hoist value state
  exact safe_setups hcall (Lower.setUp_hoist value hnames htypes).1 (subset_append_left _ _)
    hnew.counted hnew.free hnew.nodup (later_hoist value).taken hnew.taken

/-- One more temporary, for what is left of an expression. -/
theorem safe_makeTemp (hinside : state.frames ≠ []) {after : Lowering}
    (hmade : makeTemp (Lower.hoist value state).1.1 type (Lower.hoist value state).2 =
      (temp, after)) :
    Safe (Owned own (Lower.hoist value state).2.names.taken outer
      (Lower.hoistedFrames value state) hollow) (runAll setting program call temp.setup)
      (GoesOn (Owned own after.names.taken outer ((Lower.hoistedFrames value state).declare
        temp.place) hollow)) := by
  cases hmade
  exact safe_setup hcall rfl (Lower.setUp_hoist value hnames htypes).2.1
    (Lower.names_hoist hnames htypes hinside) (name_makeTemp_not_mem _ type)
    (later_makeTemp (Lower.hoist value state).1.1 type).taken
    (name_makeTemp_mem (Lower.hoist value state).1.1 type)

/-- A statement that uses temporaries, between their setup and their release. -/
theorem safe_withTemps (hown : own ⊆ state.names.taken) {core : List Stmt}
    (hcore : Safe (Owned own (Lower.hoist value state).2.names.taken outer
        (Lower.hoistedFrames value state) hollow) (runAll setting program call core)
      (GoesOn (Owned own later outer (Lower.hoistedFrames value state) []))) :
    Safe (Owned own state.names.taken outer state.frames hollow)
      (runAll setting program call ((Lower.hoist value state).1.2.flatMap Temp.setup ++ core ++
        releaseTemps (Lower.hoist value state).1.2))
          (GoesOn (Owned own later outer state.frames [])) := by
  have hnew := newTemps_hoist value state
  intro run hrun
  refine safe_append (safe_append (safe_hoist hcall hnames htypes) hcore) ?_ run hrun
  refine safe_releaseTemps hnew.counted (fun temp htemp hmem => ?_) fun w hw hmem => ?_
  · exact hnew.free temp htemp (hown hmem)
  · obtain ⟨temp, htemp, hname⟩ := mem_map.mp hmem
    exact hnew.free temp htemp (hname ▸ hrun.owning.name_mem_taken hw)

end

/-! ### Expressions -/

/-- No reference comes with a value that is no object. -/
theorem counts_given_iff {expression : Expr} {found : Value Nat}
    {refs : List (Value Nat)} {heap : Heap} (h : found.isObject = false) :
    Counts outer (given expression found ++ refs) heap ↔ Counts outer refs heap := by
  cases expression with
  | name => exact Iff.rfl
  | integer | string | call => exact Counts.cons_iff h

/-- A value on the heap that nobody wants is in a temporary for a moment. -/
theorem safe_unwanted
    (hsetup : Safe (Owned own taken outer frames hollow) (runAll setting program call temp.setup)
      (GoesOn (Owned own later outer (frames.declare temp.place) hollow)))
    (hcounted : temp.place.isCounted = true)
    (hown : own ⊆ taken) (hfree : temp.place.name ∉ taken) :
    Safe (Owned own taken outer frames hollow) (runAll setting program call
      (temp.setup ++ [temp.release])) (GoesOn (Owned own later outer frames [])) := by
  intro run hrun
  have hrelease :
      Safe (Owned own later outer (([temp].map Temp.place).foldl Frames.declare frames) [])
        (runAll setting program call (releaseTemps [temp]))
        (GoesOn (Owned own later outer frames [])) := by
    refine safe_releaseTemps ?_ ?_ ?_
    · simpa using hcounted
    · simpa using fun hmem => hfree (hown hmem)
    · intro w hw hmem
      rw [map_singleton, mem_singleton] at hmem
      exact hfree (hmem ▸ hrun.owning.name_mem_taken hw)
  refine safe_append (hsetup.weaken (fun _ => id) fun _ _ h => ?_) hrelease run hrun
  exact ⟨h.1, h.2.weaken (nil_subset _)⟩

/-- An expression whose values are not on the heap can stand by itself. -/
theorem safe_ignored (hcall : CallsOwn types call) (hflat : flat types value = true)
    (hnames : value.names ⊆ own ++ frames.flatten.map (·.name)) (hname : ∀ name, value ≠ .name name)
    (hheap : heapFirst types value = false) (location : Location) :
    Safe (Owned own taken outer frames hollow) (runAll setting program call
      [.expression value location]) (GoesOn (Owned own taken outer frames [])) := by
  refine safe_of_books fun env howning _ => ?_
  rw [runAll, execAll_singleton, exec]
  refine Holds.step (safe_eval hcall hflat fun name hmem => howning.readable (hnames hmem))
    fun found hfound => .pure fun run hrun => ⟨rfl, ?_⟩
  have hobject : found.isObject = false := by
    cases hcase : found.isObject with
    | false => rfl
    | true =>
      rcases hfound.2 hcase with ⟨name, rfl⟩ | hheap'
      · exact absurd rfl (hname name)
      · rw [hheap] at hheap'
        cases hheap'
  exact .of_books howning (by simp [Hollow]) ⟨hrun.1, (counts_given_iff hobject).mp hrun.2⟩

theorem safe_expression (hcall : CallsOwn types call) (hnames : value.names ⊆ own)
    (htypes : state.returnTypes = types) (hown : own ⊆ state.names.taken)
    (hinside : state.frames ≠ []) (hvalue : value.isCall = true) (location : Location) :
    Safe (Owned own state.names.taken outer state.frames hollow)
      (runAll setting program call (Lower.expression value location state).1)
      (GoesOn (Owned own (Lower.expression value location state).2.names.taken outer
        state.frames [])) := by
  have hflat := (Lower.setUp_hoist value hnames htypes).2.1
  have hnames' := Lower.names_hoist hnames htypes hinside
  have hname : ∀ name, value ≠ .name name := by
    rintro name rfl
    cases hvalue
  rw [expression_eq, hvalue, htypes]
  cases htype : (valueType types value).filter isHeap with
  | some type =>
    refine safe_withTemps hcall hnames htypes hown
      (safe_unwanted (safe_makeTemp hcall hnames htypes hinside rfl) ?_ ?_ ?_)
    · exact (Option.filter_eq_some_iff.mp htype).2
    · exact Subset.trans hown (later_hoist value).taken
    · exact name_makeTemp_not_mem _ type
  | none =>
    -- what is not on the heap brings no reference, so nothing has to be released
    have hheap : heapFirst types (Lower.hoist value state).1.1 = false := by
      rw [heapFirst, valueType_hoist, ← Option.isSome_filter, htype]
      rfl
    exact safe_withTemps hcall hnames htypes hown
      (safe_ignored hcall hflat hnames' (hoist_ne_name hname) hheap location)

/-! ### Assignments -/

/-- Nothing gets to a name that no variable has. -/
theorem safe_unbound (hcall : CallsOwn types call) (hv : frames.lookup target.text = none)
    (htarget : target.text ∈ own) (hflat : flat types value = true)
    (hnames : value.names ⊆ own ++ frames.flatten.map (·.name)) (location : Location) :
    Safe (Owned own taken outer frames hollow) (runAll setting program call
      [.assignment target value location]) (GoesOn (Owned own later outer frames [])) := by
  refine safe_of_books fun env howning _ => ?_
  have hfind : env.find target.text = none := by
    rw [howning.find (mem_append_left _ htarget), hv]
    rfl
  simp only [runAll, execAll_singleton, exec]
  refine Holds.step (safe_eval hcall hflat fun name hname =>
    howning.readable (hnames hname)) fun found hfound => ?_
  refine Holds.step (safe_assign hfound.1) fun _ hslot => ?_
  obtain ⟨slot, hslot, -⟩ := hslot
  rw [hfind] at hslot
  cases hslot

/-- A variable whose type is not on the heap holds no object. -/
theorem Owned.hollow_of_not_isHeap (h : Owned own taken outer frames hollow run)
    (hv : v ∈ frames.flatten) (hheap : isHeap v.type = false) :
    Owned own taken outer frames [v] run := by
  refine ⟨h.owning, h.counts, fun w hw => ?_⟩
  rw [mem_singleton.mp hw]
  refine ⟨hv, ?_⟩
  cases hvalue : run.env.valueOf v with
  | object address =>
    rw [(h.owning.held v hv address hvalue).1] at hheap
    cases hheap
  | nothing | unset | truth _ | static _ => rfl

theorem copies_of_not_isHeap (h : isHeap type = false) : copies value type = false := by
  cases value with
  | name => exact h
  | integer | string | call => rfl

/-- The value of an assignment is copied if and only if it is a name. -/
theorem assignment_fresh_eq (h : isHeap type = true) (target : Name) (value : Expr)
    (location : Location) :
    (match value with
      | .name _ => [.assignment target value location, .retain target.text target.location]
      | _ => [.assignment target value location]) =
      Stmt.assignment target value location ::
        if copies value type then [.retain target.text target.location] else [] := by
  cases value with
  | name => rw [copies, if_pos h]
  | integer | string | call => rfl

/-- The new value of a variable is safe in a temporary before the old one is released. -/
theorem safe_reassign
    (hsetup : Safe (Owned own taken outer frames hollow) (runAll setting program call temp.setup)
      (GoesOn (Owned own later outer (frames.declare temp.place) hollow)))
    (hv : frames.lookup target.text = some v)
    (hcounted : v.isCounted = true) (htarget : target.text ∈ own)
    (htemp : temp.place.isCounted = true) (hown : own ⊆ taken) (hfree : temp.place.name ∉ taken)
    (location : Location) :
    Safe (Owned own taken outer frames hollow) (runAll setting program call (temp.setup ++
        [.release target.text v.location, .assignment target temp.use location]))
      (GoesOn (Owned own later outer frames [])) := by
  intro run hrun
  have hreplace : Safe (Owned own later outer (frames.declare temp.place) [])
      (runAll setting program call
        [.release target.text v.location, .assignment target temp.use location])
      (GoesOn (Owned own later outer frames [])) := by
    refine safe_replace hv hcounted htarget htemp (fun hmem => hfree (hown hmem)) ?_ location
    intro hmem
    obtain ⟨w, hw, hname⟩ := mem_map.mp hmem
    exact hfree (hname ▸ hrun.owning.name_mem_taken hw)
  refine safe_append (hsetup.weaken (fun _ => id) fun _ _ h => ?_) hreplace run hrun
  exact ⟨h.1, h.2.weaken (nil_subset _)⟩

theorem safe_assignment (hcall : CallsOwn types call) {fresh : Bool} (htarget : target.text ∈ own)
    (hnames : value.names ⊆ own) (htypes : state.returnTypes = types)
    (hown : own ⊆ state.names.taken) (hinside : state.frames ≠ [])
    (howned : ∀ v, state.frames.lookup target.text = some v → isHeap v.type = true → v.owned = true)
    (hfresh : fresh = true → ∀ v, state.frames.lookup target.text = some v → hollow = [v])
    (location : Location) :
    Safe (Owned own state.names.taken outer state.frames hollow)
      (runAll setting program call (Lower.assignment fresh target value location state).1)
      (GoesOn (Owned own (Lower.assignment fresh target value location state).2.names.taken outer
        state.frames [])) := by
  have hflat := (Lower.setUp_hoist value hnames htypes).2.1
  have hnames' := Lower.names_hoist hnames htypes hinside
  have hlookup : (Lower.hoistedFrames value state).lookup target.text =
      state.frames.lookup target.text := Lower.lookup_hoistedFrames hown hinside htarget
  have htarget' : target.text ∈ own ++ (Lower.hoistedFrames value state).flatten.map (·.name) :=
    mem_append_left _ htarget
  rw [assignment_eq]
  -- what stands in the place of the assignment depends on the variable that gets the value
  cases hv : state.frames.lookup target.text with
  | none =>
    exact safe_withTemps hcall hnames htypes hown (safe_unbound hcall (hlookup.trans hv) htarget
      hflat hnames' location)
  | some v =>
    have hv' := hlookup.trans hv
    have hfill : Safe (Owned own (Lower.hoist value state).2.names.taken outer
        (Lower.hoistedFrames value state) [v]) (runAll setting program call
          (.assignment target (Lower.hoist value state).1.1 location ::
          if copies (Lower.hoist value state).1.1 v.type then
            [.retain target.text target.location] else []))
        (GoesOn (Owned own (Lower.hoist value state).2.names.taken outer
          (Lower.hoistedFrames value state) [])) :=
      safe_fill hcall hv' (howned v hv) hflat htarget' hnames' (by simp) location target.location
    cases hheap : isHeap v.type with
    | false =>
      -- nothing is counted, and a variable of such a type holds no object that could be lost
      rw [Option.filter_some_neg (by simp [hheap])]
      rw [copies_of_not_isHeap hheap] at hfill
      refine safe_withTemps hcall hnames htypes hown
        (hfill.weaken (fun run hrun => ?_) fun _ _ => id)
      exact hrun.hollow_of_not_isHeap (Frames.mem_of_lookup hv').1 hheap
    | true =>
      rw [Option.filter_some_pos (p := fun v : Local => isHeap v.type) hheap]
      cases fresh with
      | true =>
        -- the declaration is right in front, so there is no old value to release
        rw [← assignment_fresh_eq hheap] at hfill
        rw [hfresh rfl v hv]
        exact safe_withTemps hcall hnames htypes hown hfill
      | false =>
        have hcounted : v.isCounted = true := by
          rw [Local.isCounted, howned v hv hheap, hheap]
          rfl
        refine safe_withTemps hcall hnames htypes hown (safe_reassign
          (safe_makeTemp hcall hnames htypes hinside rfl) hv' hcounted htarget ?_ ?_ ?_ location)
        · exact hheap
        · exact Subset.trans hown (later_hoist value).taken
        · exact name_makeTemp_not_mem _ v.type

/-! ### Returns -/

section

variable (howning : Owning own taken outer frames env) (hv : frames.lookup name.text = some v)
  (hname : name.text ∈ own ++ frames.flatten.map (·.name))
include howning hv hname

/-- A function returns what a variable holds. The reference of the variable goes to the caller, and
all others are released. -/
theorem safe_return {others : List Local} (hothers : others ⊆ frames.flatten)
    (location : Location) :
    Safe (Books env outer (env.valueOf v :: holdings env others))
      (runAll setting program call (releases others ++ [.result (.name name) location]))
      (Returns outer) := by
  have hfind := howning.find hname
  rw [hv, Option.map_some] at hfind
  -- the reference that is handed over is not among those that are released
  have hreleases : Safe (Books env outer (env.valueOf v :: holdings env others))
      (runAll setting program call (releases others)) (GoesOn (Books env outer [env.valueOf v])) :=
    (safe_releases fun w hw => howning.findAt (hothers hw)).weaken
      (fun _ hbooks => ⟨hbooks.1, hbooks.2.perm (perm_append_singleton _ _).symm⟩) fun _ _ => id
  refine safe_append hreleases ?_
  rw [runAll, execAll_singleton, exec, eval]
  refine Holds.step (safe_readName fun slot hslot => ?_) fun found hfound =>
    .pure fun run hrun => ?_
  · rw [hfind] at hslot
    cases hslot
    exact .of_mem mem_cons_self
  · rw [hfound.1 _ hfind]
    exact ⟨_, rfl, hrun.2⟩

/-- A variable that is returned has a reference for the caller, or takes one if it has only borrowed
its object. -/
theorem safe_handOver :
    Safe (Books env outer (holdings env frames.flatten)) (runAll setting program call
        (if !v.owned && isHeap v.type then [.retain name.text name.location] else []))
      (GoesOn (Books env outer
        (env.valueOf v :: holdings env (frames.flatten.eraseP (·.name = name.text))))) := by
  have hfind := howning.find hname
  rw [hv, Option.map_some] at hfind
  have hmem := (Frames.mem_of_lookup hv).1
  have hperm := Frames.perm_of_lookup hv
  cases hborrowed : !v.owned && isHeap v.type with
  | true =>
    -- nothing is among the holdings for a variable that has borrowed, so the new reference is extra
    have howned : v.owned = false := by simpa using (Bool.and_eq_true_iff.mp hborrowed).1
    have hcounted : v.isCounted = false := by
      rw [Local.isCounted, howned, Bool.false_and]
    have hholdings : (holdings env frames.flatten).Perm
        (holdings env (v :: frames.flatten.eraseP (·.name = name.text))) := holdings_perm hperm
    rw [holdings_cons_of_not_counted hcounted] at hholdings
    rw [if_pos rfl, runAll, execAll_singleton, exec]
    refine Holds.bind (safe_retain hfind (howning.backed hmem hmem)) fun _ =>
      .pure fun run hrun => ?_
    exact ⟨rfl, hrun.1, hrun.2.perm (hholdings.cons _)⟩
  | false =>
    -- if it holds an object, the type is on the heap, and so the reference is its own
    have howned : (env.valueOf v).isObject = true → v.owned = true := by
      intro hobject
      cases hvalue : env.valueOf v with
      | object address =>
        rw [(howning.held v hmem address hvalue).1] at hborrowed
        simpa using hborrowed
      | nothing | unset | truth _ | static _ => rw [hvalue] at hobject; cases hobject
    have herase : (frames.flatten.erase v).Perm (frames.flatten.eraseP (·.name = name.text)) :=
      ((perm_cons_erase hmem).symm.trans hperm).cons_inv
    refine .pure fun run hrun => ⟨rfl, hrun.1, ?_⟩
    exact ((howning.counts_iff hmem howned []).mp hrun.2).perm ((holdings_perm herase).cons _)

end

theorem safe_resultName (hname : name.text ∈ own) (location : Location) :
    Safe (Owned own state.names.taken outer state.frames hollow)
      (runAll setting program call (resultName name location state).1) (Returns outer) := by
  refine safe_of_books fun env howning _ => ?_
  have hname' : name.text ∈ own ++ state.frames.flatten.map (·.name) := mem_append_left _ hname
  rw [resultName_eq, Frames.releaseAll]
  cases hv : state.frames.lookup name.text with
  | some =>
    rw [Option.any_some, append_assoc]
    exact safe_append (safe_handOver howning hv hname') (safe_return howning hv hname'
      eraseP_subset location)
  | none =>
    -- no variable has this name, so nothing is kept
    have hfind := howning.find hname'
    rw [hv, Option.map_none] at hfind
    have hall : state.frames.flatten.eraseP (·.name = name.text) = state.frames.flatten :=
      eraseP_of_forall_not fun w hw => find?_eq_none.mp hv w hw
    rw [hall]
    refine safe_append (Q := Books env outer []) ?_ ?_
    · exact (safe_releases fun w hw => howning.findAt hw).weaken
        (fun _ hbooks => ⟨hbooks.1, (append_nil _).symm ▸ hbooks.2⟩) fun _ _ => id
    · rw [runAll, execAll_singleton, exec, eval]
      refine Holds.step (safe_readName_global hfind) fun found hfound => .pure fun run hrun => ?_
      exact ⟨found, rfl, (Counts.cons_iff hfound).mpr hrun.2⟩

/-- A temporary that outlives all other variables is returned. -/
theorem safe_returnTemp {temp : Local} (hinside : frames ≠ []) (howned : temp.owned = true)
    (location : Location) :
    Safe (Owned own taken outer (frames.declare temp) hollow)
      (runAll setting program call (releases frames.flatten ++ [.result temp.use location]))
      (Returns outer) := by
  refine safe_of_books fun env howning _ => ?_
  have hflatten := Frames.flatten_declare hinside temp
  have hmem : temp ∈ (frames.declare temp).flatten := by
    rw [hflatten]
    exact mem_cons_self
  refine (safe_return howning (Frames.lookup_declare hinside temp) ?_ ?_
    location).weaken ?_ fun _ _ => id
  · exact mem_append_right _ (mem_map_of_mem hmem)
  · rw [hflatten]
    exact subset_cons_self _ _
  · intro run hrun
    have hcounts := (howning.counts_iff hmem (fun _ => howned) []).mp hrun.2
    rw [hflatten, erase_cons_head] at hcounts
    exact ⟨hrun.1, hcounts⟩

/-- What is returned and is no variable gets a temporary. -/
theorem safe_resultValue (hcall : CallsOwn types call) (hnames : value.names ⊆ own)
    (htypes : state.returnTypes = types) (hinside : state.frames ≠ [])
    (hname : ∀ name, value ≠ .name name) (hvalue : (valueType types value).isSome = true)
    (location : Location) :
    Safe (Owned own state.names.taken outer state.frames hollow)
      (runAll setting program call (resultValue value location state).1) (Returns outer) := by
  obtain ⟨type, htype⟩ := Option.isSome_iff_exists.mp hvalue
  have hnew := newTemps_hoist value state
  -- the temporaries of the value are released together with the variables
  have hreleases : releases (Lower.hoistedFrames value state).flatten =
      releaseTemps (Lower.hoist value state).1.2 ++ releases state.frames.flatten := by
    rw [Lower.flatten_hoistedFrames hinside, releases_append, releaseTemps_eq hnew.counted]
  rw [resultValue_eq hname, htypes, htype, Frames.releaseAll]
  dsimp only
  rw [append_assoc _ (releaseTemps _), ← hreleases, append_assoc]
  refine safe_append (safe_append (safe_hoist hcall hnames htypes) (safe_makeTemp hcall hnames
    htypes hinside rfl)) ?_
  exact safe_returnTemp (Frames.declareAll_ne_nil hinside _) rfl location

/-! ### Bodies -/

/-- What comes behind a part that may have returned. -/
theorem safe_append_returns {P Q : State Nat Heap → Prop}
    {R : Option (Value Nat) → State Nat Heap → Prop} {first second : List Stmt}
    (h : Safe P (runAll setting program call first) fun result run =>
      GoesOn Q result run ∨ Returns outer result run)
    (h' : Safe Q (runAll setting program call second) R)
    (hreturns : ∀ result run, Returns outer result run → R result run) :
    Safe P (runAll setting program call (first ++ second)) R := by
  rw [runAll, execAll_append]
  refine Holds.bind h fun result => ?_
  rintro run (⟨rfl, hrun⟩ | ⟨value, rfl, hrun⟩)
  · exact h' run hrun
  · exact hreturns (some value) run ⟨value, rfl, hrun⟩

/-- The variables of the innermost body give back their references. -/
theorem safe_releaseInnermost :
    Safe (Owned own taken outer (top :: frames) hollow) (runAll setting program call (releases top))
      (GoesOn fun run => Owning own taken outer (top :: frames) run.env ∧
        Counts outer (holdings run.env frames.flatten) run.store) := by
  refine safe_of_books fun env howning _ => ?_
  have hslots : ∀ v ∈ top, env.findAt v.name v.location = some (slotOf v (env.valueOf v)) :=
    fun v hv => howning.findAt (mem_append_left _ hv)
  rw [flatten_cons, holdings_append]
  refine (safe_releases hslots).weaken (fun _ => id) fun _ run hrun => ⟨hrun.1, ?_⟩
  obtain ⟨rfl, hcounts⟩ := hrun.2
  exact ⟨howning, hcounts⟩

/-- A body inside of another one. What it owns at its end is released, unless it has returned. -/
theorem safe_inBlock {ends : Bool} {block : List Stmt} (hinside : frames ≠ [])
    (h : Safe (Owned own taken outer ([] :: frames) []) (runAll setting program call block)
      (Balances own later outer (top :: frames) [] ends)) :
    Safe (Owned own taken outer frames []) (inBlock
        (runAll setting program call (if ends then block else block ++ releases top)))
      (Balances own later outer frames [] false) := by
  have hblock : Safe (Owned own taken outer ([] :: frames) [])
      (runAll setting program call (if ends then block else block ++ releases top))
      fun result run => GoesOn (fun run => Owning own later outer (top :: frames) run.env ∧
        Counts outer (holdings run.env frames.flatten) run.store) result run ∨
        Returns outer result run := by
    cases ends with
    | true => exact h.weaken (fun _ => id) fun _ _ hrun => .inr (hrun.resolve_left (by simp))
    | false =>
      refine safe_append_returns (h.weaken (fun _ => id) fun _ _ hrun => hrun.imp_left And.right)
        (safe_releaseInnermost.weaken (fun _ => id) fun _ _ => .inl) fun _ _ => .inr
  -- a frame is opened, the body runs, and the frame is closed whatever the body has done
  refine Holds.bind (Q := fun _ => Owned own taken outer ([] :: frames) []) ?_ fun _ => ?_
  · exact Holds.modifyEnv fun run hrun => ⟨hrun.owning.push, hrun.counts, by simp [Hollow]⟩
  refine Holds.bind hblock fun result => ?_
  refine Holds.bind (Q := fun _ => Balances own later outer frames [] false result)
    (Holds.modifyEnv fun run hrun => ?_) fun _ => .pure fun _ => id
  rcases hrun with ⟨rfl, howning, hcounts⟩ | hreturns
  · refine .inl ⟨rfl, rfl, howning.pop hinside, ?_, by simp [Hollow]⟩
    rw [howning.holdings_tail]
    exact hcounts
  · exact .inr hreturns

/-- A condition with a body. The temporaries of the condition stay, as the body may return. -/
theorem safe_conditional (hcall : CallsOwn types call) (hnames : value.names ⊆ own)
    (htypes : state.returnTypes = types) (hinside : state.frames ≠ []) {body : List Stmt}
    (hbody : Safe (Owned own (Lower.hoist value state).2.names.taken outer
      (Lower.hoistedFrames value state) []) (inBlock (runAll setting program call body))
      (Balances own later outer (Lower.hoistedFrames value state) [] false))
    (hlater : (Lower.hoist value state).2.names.taken ⊆ later) (location : Location) :
    Safe (Owned own state.names.taken outer state.frames hollow)
      (runAll setting program call ((Lower.hoist value state).1.2.flatMap Temp.setup ++
        [.conditional (Lower.hoist value state).1.1 body location]))
      (Balances own later outer (Lower.hoistedFrames value state) [] false) := by
  have hflat := (Lower.setUp_hoist value hnames htypes).2.1
  have hnames' := Lower.names_hoist hnames htypes hinside
  refine safe_append (safe_hoist hcall hnames htypes) (safe_of_books fun env howning _ => ?_)
  rw [runAll, execAll_singleton, exec]
  refine Holds.step (safe_eval hcall hflat fun name hname =>
    howning.readable (hnames' hname)) fun found _ => ?_
  refine Holds.step safe_branch fun taken hobject => ?_
  -- what decides is no object, so nothing has come with it
  have howned : ∀ run, Books env outer (given (Lower.hoist value state).1.1 found ++
      holdings env (Lower.hoistedFrames value state).flatten) run →
      Owned own (Lower.hoist value state).2.names.taken outer
        (Lower.hoistedFrames value state) [] run :=
    fun run hrun =>
      .of_books howning (by simp [Hollow]) ⟨hrun.1, (counts_given_iff hobject).mp hrun.2⟩
  cases taken with
  | true => exact hbody.weaken howned fun _ _ => id
  | false => exact .pure fun run hrun => .inl ⟨rfl, rfl, (howned run hrun).mono hlater⟩

/-! ### Statements and blocks -/

theorem Balances.of_goesOn {result : Option (Value Nat)}
    (h : GoesOn (Owned own taken outer frames hollow) result run) :
    Balances own taken outer frames hollow false result run :=
  .inl ⟨rfl, h⟩

theorem endsWithResult_cons_cons (stmt next : Stmt) (block : List Stmt) :
    endsWithResult (stmt :: next :: block) = endsWithResult (next :: block) := by
  rw [endsWithResult, getLast?_cons_cons]
  rfl

theorem safe_declared {type : Name} {name : String} {location : Location} {previous : Option Stmt}
    (hfit : Fit types own state.frames [.declaration type name location])
    (hown : own ⊆ state.names.taken) :
    Safe (Owned own state.names.taken outer state.frames hollow)
      (runAll setting program call (statement previous (.declaration type name location) state).1)
      (GoesOn (Owned own state.names.taken outer
        (statement previous (.declaration type name location) state).2.frames
        (declaredBy (some (.declaration type name location))
          (statement previous (.declaration type name location) state).2.frames))) := by
  have hname : name ∈ own := hfit.names (by simp [Stmt.namesOfAll, Stmt.names])
  have hplaced : (name, location) ∉ state.frames.flatten.map Local.placed :=
    hfit.new _ (by simp [Stmt.placesOfAll, Stmt.places])
  -- the variable is fixed by its declaration
  obtain ⟨v, hv⟩ : ∃ v : Local, v = { name := name, type := type.text, location := location } :=
    ⟨_, rfl⟩
  have hstatement : statement previous (.declaration type name location) state =
      ([.declaration ⟨v.type, type.location⟩ v.name v.location],
        { state with frames := state.frames.declare v }) := by
    rw [statement, hv]
    rfl
  have hvname : v.name = name := by rw [hv]
  have hlookup : (state.frames.declare v).lookup name = some v :=
    hvname ▸ Frames.lookup_declare hfit.inside v
  have hdeclared :
      declaredBy (some (.declaration type name location)) (state.frames.declare v) = [v] :=
    declaredBy_eq (by simp [Stmt.declares]) hlookup
  rw [hstatement]
  dsimp only
  rw [hdeclared]
  refine (safe_declaration type.location ?_ (Subset.refl _) ?_ ?_).weaken (fun _ => id)
    fun _ _ hrun => ⟨hrun.1, hrun.2.weaken (by simp)⟩
  · exact .inl (hv ▸ hname)
  · exact hown (hv ▸ hname)
  · exact hv ▸ hplaced

mutual

/-- **A lowered statement balances its references.** -/
theorem safe_statement (hcall : CallsOwn types call) : ∀ (stmt : Stmt) (previous : Option Stmt)
    {state : Lowering}, Fit types own state.frames [stmt] → state.returnTypes = types →
    own ⊆ state.names.taken →
    Safe (Owned own state.names.taken outer state.frames (declaredBy previous state.frames))
      (runAll setting program call (statement previous stmt state).1)
      (Balances own (statement previous stmt state).2.names.taken outer
        (statement previous stmt state).2.frames
        (declaredBy (some stmt) (statement previous stmt state).2.frames) (endsWithResult [stmt]))
  | .declaration type name location, previous, state, hfit, htypes, hown => by
    refine (safe_declared hfit hown).weaken (fun _ => id) fun _ _ hrun => .of_goesOn ⟨hrun.1, ?_⟩
    exact hrun.2.mono (grown_statement previous _ _).taken
  | .assignment target value location, previous, state, hfit, htypes, hown => by
    have hnames := hfit.names
    simp only [Stmt.namesOfAll, Stmt.names, append_nil, cons_subset] at hnames
    rw [statement, (later_assignment _ target value location).frames]
    exact (safe_assignment hcall hnames.1 hnames.2 htypes hown hfit.inside (fun _ => hfit.owned)
      (fun hfresh _ => declaredBy_eq hfresh) location).weaken (fun _ => id) fun _ _ => .of_goesOn
  | .conditional condition body location, previous, state, hfit, htypes, hown => by
    have hnames := hfit.names
    simp only [Stmt.namesOfAll, Stmt.names, append_nil, append_subset] at hnames
    have hhoist : state.Later (Lower.hoist condition state).2 := later_hoist condition
    have hgrown := grown_block none body (opened condition state)
    obtain ⟨top, hframes⟩ : ∃ top, (Lower.block none body (opened condition state)).2.frames =
        top :: Lower.hoistedFrames condition state := frames_block_opened condition body
    have hbody : Safe (Owned own (opened condition state).names.taken outer
          (opened condition state).frames [])
        (runAll setting program call (Lower.block none body (opened condition state)).1)
        (Balances own (Lower.block none body (opened condition state)).2.names.taken outer
          (Lower.block none body (opened condition state)).2.frames [] (endsWithResult body)) :=
      safe_block hcall body none (hfit.opened hown) (hhoist.returnTypes.trans htypes)
        (Subset.trans hown hhoist.taken)
    -- what the body has declared is on top of what was there in front of it
    rw [hframes, frames_opened] at hbody
    rw [statement_conditional_eq]
    dsimp only
    rw [hframes, tail_cons, Frames.releaseInnermost, headD_cons]
    exact safe_conditional hcall hnames.1 htypes hfit.inside
      (safe_inBlock (Frames.declareAll_ne_nil hfit.inside _) hbody) hgrown.taken location
  | .result value location, previous, state, hfit, htypes, hown => by
    have hnames := hfit.names
    simp only [Stmt.namesOfAll, Stmt.names, append_nil] at hnames
    rw [statement]
    rcases value.name_or_ne with ⟨name, rfl⟩ | hname
    · -- a variable can be returned as it is, all else needs a temporary
      exact (safe_resultName (hnames (by simp [Expr.names])) location).weaken
        (fun _ => id) fun _ _ => .inr
    · rw [result_of_ne_name hname]
      exact (safe_resultValue hcall hnames htypes hfit.inside hname (hfit.typed hname)
        location).weaken (fun _ => id) fun _ _ => .inr
  | .expression value location, previous, state, hfit, htypes, hown => by
    have hnames := hfit.names
    simp only [Stmt.namesOfAll, Stmt.names, append_nil] at hnames
    rw [statement, (later_expression value location).frames]
    exact (safe_expression hcall hnames htypes hown hfit.inside hfit.tidy_head location).weaken
      (fun _ => id) fun _ _ => .of_goesOn
  | .function .., previous, state, hfit, htypes, hown => by
    rw [statement, runAll]
    · change Safe _ ((counted setting program).execAll _ [_]) _
      rw [execAll_singleton, exec]
      exact Safe.stuck
    all_goals simp
  | .retain .., previous, state, hfit, htypes, hown
  | .release .., previous, state, hfit, htypes, hown => by cases hfit.tidy_head

/-- **So does a lowered body.** -/
theorem safe_block (hcall : CallsOwn types call) : ∀ (block : List Stmt)
    (previous : Option Stmt) {state : Lowering}, Fit types own state.frames block →
    state.returnTypes = types → own ⊆ state.names.taken →
    Safe (Owned own state.names.taken outer state.frames (declaredBy previous state.frames))
      (runAll setting program call (Lower.block previous block state).1)
      (Balances own (Lower.block previous block state).2.names.taken outer
        (Lower.block previous block state).2.frames [] (endsWithResult block))
  | [], previous, state, hfit, htypes, hown => by
    rw [Lower.block]
    exact .pure fun run hrun => .of_goesOn ⟨rfl, hrun.weaken (nil_subset _)⟩
  | stmt :: block, previous, state, hfit, htypes, hown => by
    have hgrown := grown_statement previous stmt state
    have hfirst : Safe (Owned own state.names.taken outer state.frames
        (declaredBy previous state.frames)) (runAll setting program call
          (statement previous stmt state).1) _ :=
      safe_statement hcall stmt previous hfit.head htypes hown
    rw [block_cons_eq]
    cases block with
    | nil =>
      rw [Lower.block]
      dsimp only [pure, StateT.pure]
      rw [append_nil]
      refine hfirst.weaken (fun _ => id) fun _ _ hrun => hrun.imp_left fun hgoes => ?_
      exact ⟨hgoes.1, hgoes.2.1, hgoes.2.2.weaken (nil_subset _)⟩
    | cons next block =>
      -- the statement leaves the state from which the rest is lowered
      have hrest := safe_block hcall (next :: block) (some stmt) (hfit.next hown previous)
        (hgrown.returnTypes.trans htypes) (Subset.trans hown hgrown.taken)
      rw [endsWithResult_cons_cons]
      exact safe_append_returns (hfirst.weaken (fun _ => id) fun _ _ hrun =>
        hrun.imp_left And.right)
        hrest fun _ _ => .inr

end

end Statements

end FrontEnd.Execution
