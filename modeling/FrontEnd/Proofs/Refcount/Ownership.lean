import FrontEnd.Proofs.Refcount.Borrow
import FrontEnd.Proofs.Refcount.Layout

/-!
# Who has which reference

While a function runs, the references that are its own are in its variables: each variable that is
counted has one reference to the object that it holds (`holdings`), and these are all (`Owned`). A
parameter that is not counted has borrowed its object, which someone outside has a reference to.

Every part of a lowered statement keeps this or says what is different behind it. To declare a
variable and to set up a temporary adds a variable (`safe_declaration`, `safe_setup`), to release
temporaries takes them away (`safe_releaseTemps`), and to give a value to a variable changes what it
holds (`safe_fill`, `safe_replace`).
-/

namespace FrontEnd.Execution

open Refcount Machine List Frames

variable {own taken : List String} {outer : Nat → Nat} {frames : Frames} {hollow : List Local}

/-! ### Variables and what they hold -/

/-- The references that variables have. -/
def holdings (env : Env Nat) (locals : List Local) : List (Value Nat) :=
  (locals.filter Local.isCounted).map env.valueOf

section Holdings

variable {env env' : Env Nat} {locals locals' : List Local} {v : Local}

theorem holdings_append (env : Env Nat) (locals locals' : List Local) :
    holdings env (locals ++ locals') = holdings env locals ++ holdings env locals' := by
  rw [holdings, filter_append, map_append]
  rfl

theorem holdings_cons_of_counted (h : v.isCounted = true) :
    holdings env (v :: locals) = env.valueOf v :: holdings env locals := by
  rw [holdings, filter_cons_of_pos h]
  rfl

theorem holdings_cons_of_not_counted (h : v.isCounted = false) :
    holdings env (v :: locals) = holdings env locals := by
  rw [holdings, filter_cons_of_neg (by simp [h])]
  rfl

theorem holdings_perm (h : locals.Perm locals') :
    (holdings env locals).Perm (holdings env locals') :=
  (h.filter _).map _

theorem holdings_congr (h : ∀ v ∈ locals, env'.valueOf v = env.valueOf v) :
    holdings env' locals = holdings env locals :=
  map_congr_left fun v hv => h v (mem_of_mem_filter hv)

end Holdings

/-- The variables of a function have their slots, and hold objects only where they may: those of a
type on the heap, and those without a reference of their own only what someone outside has a
reference to. -/
structure Owning (own taken : List String) (outer : Nat → Nat) (frames : Frames) (env : Env Nat) :
    Prop where
  laid : ∃ dead, Laid own taken dead frames env
  held : ∀ v ∈ frames.flatten, ∀ address, env.valueOf v = .object address →
    isHeap v.type = true ∧ (v.owned = false → 0 < outer address)

/-- Variables that hold no objects. -/
def Hollow (frames : Frames) (hollow : List Local) (env : Env Nat) : Prop :=
  ∀ v ∈ hollow, v ∈ frames.flatten ∧ (env.valueOf v).isObject = false

/-- All references of a function are those of its variables, and of some variables it is known that
they have none. -/
structure Owned (own taken : List String) (outer : Nat → Nat) (frames : Frames)
    (hollow : List Local) (state : State Nat Heap) : Prop where
  owning : Owning own taken outer frames state.env
  counts : Counts outer (holdings state.env frames.flatten) state.store
  empty : Hollow frames hollow state.env

/-- To know who has which reference, it is enough to know it for each environment. -/
theorem safe_of_books {α : Type} {action : Run Nat Heap α} {Q : α → State Nat Heap → Prop}
    (h : ∀ env, Owning own taken outer frames env → Hollow frames hollow env →
      Safe (Books env outer (holdings env frames.flatten)) action Q) :
    Safe (Owned own taken outer frames hollow) action Q :=
  fun state hstate => h state.env hstate.owning hstate.empty state ⟨rfl, hstate.counts⟩

theorem Owned.of_books {env : Env Nat} {state : State Nat Heap}
    (howning : Owning own taken outer frames env) (hempty : Hollow frames hollow env)
    (h : Books env outer (holdings env frames.flatten) state) :
    Owned own taken outer frames hollow state := by
  obtain ⟨rfl, hcounts⟩ := h
  exact ⟨howning, hcounts, hempty⟩

namespace Owning

variable {own taken later : List String} {outer : Nat → Nat} {frames : Frames} {env : Env Nat}
  {v w : Local} {name : String} {value : Value Nat} {locals top : List Local} {heap : Heap}

section

variable (h : Owning own taken outer frames env)
include h

theorem mono (htaken : taken ⊆ later) : Owning own later outer frames env :=
  ⟨h.laid.imp fun _ hlaid => hlaid.mono htaken, h.held⟩

theorem ne_nil : env ≠ [] :=
  h.laid.elim fun _ hlaid => hlaid.ne_nil

theorem inside : frames ≠ [] :=
  h.laid.elim fun _ hlaid => hlaid.inside

theorem nodup : frames.flatten.Nodup :=
  h.laid.elim fun _ hlaid => hlaid.distinct.of_map

/-- Different variables are in different slots. -/
theorem placed_ne (hv : v ∈ frames.flatten) (hw : w ∈ frames.flatten) (hne : w ≠ v) :
    v.placed ≠ w.placed := by
  obtain ⟨dead, hlaid⟩ := h.laid
  exact fun heq => hne (inj_on_of_nodup_map hlaid.distinct hw hv heq.symm)

theorem name_mem_taken (hv : v ∈ frames.flatten) : v.name ∈ taken :=
  h.laid.elim fun _ hlaid => hlaid.name_mem_taken hv

theorem findAt (hv : v ∈ frames.flatten) :
    env.findAt v.name v.location = some (slotOf v (env.valueOf v)) :=
  h.laid.elim fun _ hlaid => hlaid.findAt hv

/-- The names of the program and those of the variables stand for what lowering thinks. -/
theorem find (hname : name ∈ own ++ frames.flatten.map (·.name)) :
    env.find name = (frames.lookup name).map fun v => slotOf v (env.valueOf v) := by
  obtain ⟨dead, hlaid⟩ := h.laid
  refine hlaid.find ?_
  rcases mem_append.mp hname with hown | hframes
  · exact hlaid.named name hown
  · obtain ⟨v, hv, rfl⟩ := mem_map.mp hframes
    exact hlaid.name_not_mem_dead hv

/-- Someone has a reference to what a variable holds. -/
theorem backed (hv : v ∈ frames.flatten) (hmem : v ∈ locals) :
    Backed outer (holdings env locals) (env.valueOf v) := by
  intro address hvalue
  obtain ⟨hheap, hborrowed⟩ := h.held v hv address hvalue
  cases howned : v.owned with
  | false => exact .inl (hborrowed howned)
  | true =>
    have hcounted : v.isCounted = true := by simp [Local.isCounted, howned, hheap]
    exact .inr (hvalue ▸ mem_map_of_mem (mem_filter.mpr ⟨hmem, hcounted⟩))

/-- All names can be read. -/
theorem readable (hname : name ∈ own ++ frames.flatten.map (·.name)) :
    Readable env outer (holdings env frames.flatten) name := by
  intro slot hslot
  rw [h.find hname] at hslot
  obtain ⟨v, hv, rfl⟩ := Option.map_eq_some_iff.mp hslot
  have hmem := (mem_of_lookup hv).1
  exact h.backed hmem hmem

/-- An account of all variables is one of all but one of them, and of what that one holds. -/
theorem counts_iff (hv : v ∈ frames.flatten)
    (howned : (env.valueOf v).isObject = true → v.owned = true) (refs : List (Value Nat)) :
    Counts outer (refs ++ holdings env frames.flatten) heap ↔
      Counts outer (env.valueOf v :: (refs ++ holdings env (frames.flatten.erase v))) heap := by
  have hperm : (holdings env frames.flatten).Perm (holdings env (v :: frames.flatten.erase v)) :=
    holdings_perm (perm_cons_erase hv)
  cases hcounted : v.isCounted with
  | true =>
    rw [holdings_cons_of_counted hcounted] at hperm
    have hall := (hperm.append_left refs).trans perm_middle
    exact ⟨fun hcounts => hcounts.perm hall, fun hcounts => hcounts.perm hall.symm⟩
  | false =>
    -- what is not counted holds no object, or else it would be one that is borrowed
    have hobject : (env.valueOf v).isObject = false := by
      cases hvalue : env.valueOf v with
      | object address =>
        have hheap := (h.held v hv address hvalue).1
        rw [hvalue] at howned
        rw [Local.isCounted, howned rfl, hheap] at hcounted
        cases hcounted
      | nothing | unset | truth _ | static _ => rfl
    rw [holdings_cons_of_not_counted hcounted] at hperm
    rw [Counts.cons_iff hobject]
    have hall := hperm.append_left refs
    exact ⟨fun hcounts => hcounts.perm hall, fun hcounts => hcounts.perm hall.symm⟩

theorem valueOf_declare (hplaced : v.placed ∉ frames.flatten.map Local.placed) :
    ∀ w ∈ frames.flatten, (env.declare (slotOf v value)).valueOf w = env.valueOf w := by
  intro w hw
  rw [Env.valueOf_declare h.ne_nil, if_neg]
  exact fun heq => hplaced (heq ▸ mem_map_of_mem hw)

/-- A new variable holds nothing. -/
theorem declare (hname : v.name ∈ own ∨ v.name ∉ taken) (htaken : taken ⊆ later)
    (hlater : v.name ∈ later) (hplaced : v.placed ∉ frames.flatten.map Local.placed) :
    Owning own later outer (frames.declare v) (env.declare (slotOf v .unset)) := by
  obtain ⟨dead, hlaid⟩ := h.laid
  -- forgotten temporaries have names that no variable of the program has, and that are taken
  have hdead : v.name ∉ dead :=
    hname.elim (hlaid.named v.name) fun hfree hdead => hfree (hlaid.dead_taken hdead)
  refine ⟨⟨dead, (hlaid.mono htaken).declare hdead hlater hplaced _⟩, fun w hw address hvalue => ?_⟩
  rw [flatten_declare h.inside, mem_cons] at hw
  rcases hw with rfl | hw
  · rw [Env.valueOf_declare h.ne_nil, if_pos rfl] at hvalue
    cases hvalue
  · rw [h.valueOf_declare hplaced w hw] at hvalue
    exact h.held w hw address hvalue

/-- The variable that a name stands for gets a value. -/
theorem valueOf_update
    (hname : name ∈ own ++ frames.flatten.map (·.name))
    (hv : frames.lookup name = some v) (w : Local) :
    (Env.update name value env).valueOf w =
      if v.placed = w.placed then value else env.valueOf w := by
  have hfind := h.find hname
  rw [hv] at hfind
  exact Env.valueOf_update hfind value w

theorem valueOf_update_self (hname : name ∈ own ++ frames.flatten.map (·.name))
    (hv : frames.lookup name = some v) (value : Value Nat) :
    (Env.update name value env).valueOf v = value := by
  rw [h.valueOf_update hname hv, if_pos rfl]

/-- The others keep their values. -/
theorem valueOf_update_of_ne (hname : name ∈ own ++ frames.flatten.map (·.name))
    (hv : frames.lookup name = some v) (hw : w ∈ frames.flatten) (hne : w ≠ v) :
    (Env.update name value env).valueOf w = env.valueOf w := by
  rw [h.valueOf_update hname hv, if_neg]
  exact h.placed_ne (mem_of_lookup hv).1 hw hne

theorem holdings_update (hname : name ∈ own ++ frames.flatten.map (·.name))
    (hv : frames.lookup name = some v) (hlocals : locals ⊆ frames.flatten) (hnot : v ∉ locals) :
    holdings (Env.update name value env) locals = holdings env locals :=
  holdings_congr fun _ hw => h.valueOf_update_of_ne hname hv (hlocals hw) fun heq => hnot (heq ▸ hw)

theorem hollow_update (hname : name ∈ own ++ frames.flatten.map (·.name))
    (hv : frames.lookup name = some v) {hollow : List Local} (hempty : Hollow frames hollow env)
    (hnot : v ∉ hollow) :
    Hollow frames hollow (Env.update name value env) := by
  intro w hw
  obtain ⟨hmem, hobject⟩ := hempty w hw
  rw [h.valueOf_update_of_ne hname hv hmem fun heq => hnot (heq ▸ hw)]
  exact ⟨hmem, hobject⟩

theorem update (hname : name ∈ own ++ frames.flatten.map (·.name))
    (hv : frames.lookup name = some v)
    (hvalue : value.isObject = true → isHeap v.type = true ∧ v.owned = true) :
    Owning own taken outer frames (Env.update name value env) := by
  obtain ⟨dead, hlaid⟩ := h.laid
  refine ⟨⟨dead, hlaid.update name value⟩, fun w hw address hobject => ?_⟩
  rw [h.valueOf_update hname hv] at hobject
  -- the slot that changes is that of `v` and of no other variable
  split at hobject
  · next hplaced =>
    have hsame : w = v :=
      inj_on_of_nodup_map hlaid.distinct hw (mem_of_lookup hv).1 hplaced.symm
    subst hsame
    rw [hobject] at hvalue
    exact ⟨(hvalue rfl).1, fun howned => by rw [(hvalue rfl).2] at howned; cases howned⟩
  · exact h.held w hw address hobject

/-- A variable gets a value, with a reference to it. Whatever it held is accounted for elsewhere. -/
theorem counts_update (hname : name ∈ own ++ frames.flatten.map (·.name))
    (hv : frames.lookup name = some v)
    (hvalue : value.isObject = true → isHeap v.type = true ∧ v.owned = true)
    (hcounts : Counts outer (value :: holdings env (frames.flatten.erase v)) heap) :
    Counts outer (holdings (Env.update name value env) frames.flatten) heap := by
  have hself := h.valueOf_update_self hname hv value
  have howned : ((Env.update name value env).valueOf v).isObject = true → v.owned = true := by
    rw [hself]
    exact fun hobject => (hvalue hobject).2
  have hothers : holdings (Env.update name value env) (frames.flatten.erase v) =
      holdings env (frames.flatten.erase v) :=
    h.holdings_update hname hv erase_subset fun hin => (h.nodup.mem_erase_iff.mp hin).1 rfl
  refine ((h.update hname hv hvalue).counts_iff (mem_of_lookup hv).1 howned []).mpr ?_
  rw [hself, nil_append, hothers]
  exact hcounts

theorem push : Owning own taken outer ([] :: frames) ([] :: env) :=
  ⟨h.laid.imp fun _ hlaid => hlaid.push, h.held⟩

end

/-- The end of a body inside of another one. -/
theorem pop (h : Owning own taken outer (top :: frames) env) (hinside : frames ≠ []) :
    Owning own taken outer frames env.tail := by
  obtain ⟨dead, hlaid⟩ := h.laid
  refine ⟨⟨dead, hlaid.pop hinside⟩, fun v hv address hvalue => ?_⟩
  rw [hlaid.valueOf_tail hv] at hvalue
  exact h.held v (mem_append_right _ hv) address hvalue

theorem holdings_tail (h : Owning own taken outer (top :: frames) env) :
    holdings env.tail frames.flatten = holdings env frames.flatten := by
  obtain ⟨dead, hlaid⟩ := h.laid
  exact holdings_congr fun v hv => hlaid.valueOf_tail hv

/-- Variables that are of no use any more are not looked at again. -/
theorem forget (h : Owning own taken outer (locals.foldl Frames.declare frames) env)
    (hown : ∀ v ∈ locals, v.name ∉ own)
    (hfree : ∀ w ∈ frames.flatten, w.name ∉ locals.map (·.name)) :
    Owning own taken outer frames env := by
  obtain ⟨dead, hlaid⟩ := h.laid
  refine ⟨⟨_, hlaid.forget hown hfree⟩, fun v hv => h.held v ?_⟩
  have hinside : frames ≠ [] := by rintro rfl; cases hv
  rw [flatten_declareAll hinside]
  exact mem_append_right _ hv

end Owning

/-! ### Parts of statements -/

/-- Runs statements where references are counted. -/
abbrev runAll (setting : Setting) (program : Program) (call : Machine.Caller Nat Heap)
    (block : List Stmt) : Run Nat Heap (Option (Value Nat)) :=
  (counted setting program).execAll ((counted setting program).eval call) block

/-- A run that goes on, in a state with `Q`. -/
def GoesOn (Q : State Nat Heap → Prop) (result : Option (Value Nat))
    (state : State Nat Heap) : Prop :=
  result = none ∧ Q state

section Parts

variable {setting : Setting} {program : Program} {types : ReturnTypes}
  {call : Machine.Caller Nat Heap} {own taken later : List String} {outer : Nat → Nat}
  {frames : Frames} {hollow : List Local} {v : Local} {state : State Nat Heap} {target : Name}
  {temps : List Temp}

theorem safe_append {P Q : State Nat Heap → Prop} {R : Option (Value Nat) → State Nat Heap → Prop}
    {first second : List Stmt} (h : Safe P (runAll setting program call first) (GoesOn Q))
    (h' : Safe Q (runAll setting program call second) R) :
    Safe P (runAll setting program call (first ++ second)) R := by
  rw [runAll, execAll_append]
  refine Holds.bind h fun result => ?_
  rintro state ⟨rfl, hstate⟩
  exact h' state hstate

theorem Owned.mono (h : Owned own taken outer frames hollow state) (htaken : taken ⊆ later) :
    Owned own later outer frames hollow state :=
  ⟨h.owning.mono htaken, h.counts, h.empty⟩

theorem Owned.weaken {hollow' : List Local} (h : Owned own taken outer frames hollow state)
    (hsubset : hollow' ⊆ hollow) :
    Owned own taken outer frames hollow' state :=
  ⟨h.owning, h.counts, fun v hv => h.empty v (hsubset hv)⟩

/-- A declaration adds a variable that holds nothing. -/
theorem safe_declaration (place : Location) (hname : v.name ∈ own ∨ v.name ∉ taken)
    (htaken : taken ⊆ later) (hlater : v.name ∈ later)
    (hplaced : v.placed ∉ frames.flatten.map Local.placed) :
    Safe (Owned own taken outer frames hollow)
      (runAll setting program call [.declaration ⟨v.type, place⟩ v.name v.location])
      (GoesOn (Owned own later outer (frames.declare v) (v :: hollow))) := by
  intro state hstate
  have hv : (state.env.declare (slotOf v .unset)).valueOf v = .unset := by
    rw [Env.valueOf_declare hstate.owning.ne_nil, if_pos rfl]
  have hrest : holdings (state.env.declare (slotOf v .unset)) frames.flatten =
      holdings state.env frames.flatten :=
    holdings_congr (hstate.owning.valueOf_declare hplaced)
  have hcounts : Counts outer (holdings (state.env.declare (slotOf v .unset))
      (frames.declare v).flatten) state.store := by
    rw [flatten_declare hstate.owning.inside]
    -- a variable without a value adds nothing to the account, even if it is one of those that count
    cases hcounted : v.isCounted with
    | false =>
      rw [holdings_cons_of_not_counted hcounted, hrest]
      exact hstate.counts
    | true =>
      rw [holdings_cons_of_counted hcounted, hrest, hv]
      exact (Counts.cons_iff rfl).mpr hstate.counts
  refine ⟨rfl, hstate.owning.declare hname htaken hlater hplaced, hcounts, ?_⟩
  rw [Hollow, flatten_declare hstate.owning.inside]
  refine forall_mem_cons.mpr ⟨⟨mem_cons_self, congrArg Value.isObject hv⟩, fun w hw => ?_⟩
  obtain ⟨hmem, hobject⟩ := hstate.empty w hw
  refine ⟨mem_cons_of_mem _ hmem, ?_⟩
  exact (congrArg Value.isObject (hstate.owning.valueOf_declare hplaced w hmem)).trans hobject

/-- Whether a value is copied from a variable, so that there is one more reference to it. -/
def copies (expression : Expr) (type : String) : Bool :=
  match expression with
  | .name _ => isHeap type
  | _ => false

/-- A variable that holds no object gets the value of an expression. -/
theorem safe_fill (hcall : CallsOwn types call) {value : Expr}
    (hv : frames.lookup target.text = some v) (howned : isHeap v.type = true → v.owned = true)
    (hflat : flat types value = true) (htarget : target.text ∈ own ++ frames.flatten.map (·.name))
    (hnames : value.names ⊆ own ++ frames.flatten.map (·.name)) (hnot : v ∉ hollow)
    (location place : Location) :
    Safe (Owned own taken outer frames (v :: hollow)) (runAll setting program call
      (.assignment target value location ::
        if copies value v.type then [.retain target.text place] else []))
      (GoesOn (Owned own taken outer frames hollow)) := by
  refine safe_of_books fun env howning hempty => ?_
  obtain ⟨⟨-, hobject⟩, hempty⟩ := forall_mem_cons.mp hempty
  have hfind := howning.find htarget
  rw [hv, Option.map_some] at hfind
  simp only [runAll, execAll, exec, bind_assoc, pure_bind]
  refine Holds.step (safe_eval hcall hflat fun name hname =>
    howning.readable (hnames hname)) fun found hfound => ?_
  refine Holds.step (safe_assign hfound.1) fun _ hslot => ?_
  obtain ⟨slot, hslot, hheap⟩ := hslot
  rw [hfind] at hslot
  cases hslot
  have hheap : found.isObject = true → isHeap v.type = true := hheap
  have hvalue : found.isObject = true → isHeap v.type = true ∧ v.owned = true :=
    fun hobject => ⟨hheap hobject, howned (hheap hobject)⟩
  -- a reference has come with the value, or is taken now
  have hown : Safe (Books (Env.update target.text found env) outer
        (given value found ++ holdings env frames.flatten))
      (runAll setting program call
        (if copies value v.type then [.retain target.text place] else []))
      (GoesOn (Books (Env.update target.text found env) outer
        (found :: holdings env frames.flatten))) := by
    cases value with
    | name =>
      -- what is copied from a variable is still held by that one
      cases hcopies : isHeap v.type with
      | true =>
        have hupdated :
            (Env.update target.text found env).find target.text = some (slotOf v found) := by
          rw [Env.find_update, if_pos rfl, hfind]
          rfl
        rw [copies, hcopies, if_pos rfl, runAll, execAll_singleton, exec]
        exact Holds.bind (safe_retain hupdated hfound.1) fun _ =>
          .pure fun _ hstate => ⟨rfl, hstate⟩
      | false =>
        have hobject : found.isObject = false := by
          rw [hcopies] at hheap
          simpa using hheap
        rw [copies, hcopies]
        exact .pure fun _ hstate => ⟨rfl, hstate.1, (Counts.cons_iff hobject).mpr hstate.2⟩
    | integer | string | call => exact .pure fun _ hstate => ⟨rfl, hstate⟩
  refine hown.weaken (fun _ => id) fun _ state hstate => ⟨hstate.1, ?_⟩
  refine .of_books (howning.update htarget hv hvalue) (howning.hollow_update htarget hv hempty hnot)
    ⟨hstate.2.1, howning.counts_update htarget hv hvalue ?_⟩
  -- the variable held no object before, so that it can be left out of the account
  have hmem := (mem_of_lookup hv).1
  exact (Counts.cons_iff hobject).mp
    ((howning.counts_iff hmem (by simp [hobject]) [found]).mp hstate.2.2)

/-- A temporary gets its value. -/
theorem safe_setup (hcall : CallsOwn types call) {temp : Temp} (howned : temp.place.owned = true)
    (hflat : flat types temp.value = true)
    (hnames : temp.value.names ⊆ own ++ frames.flatten.map (·.name))
    (hfree : temp.place.name ∉ taken) (htaken : taken ⊆ later) (hlater : temp.place.name ∈ later) :
    Safe (Owned own taken outer frames hollow) (runAll setting program call temp.setup)
      (GoesOn (Owned own later outer (frames.declare temp.place) hollow)) := by
  intro state hstate
  have hinside := hstate.owning.inside
  have hflatten : (frames.declare temp.place).flatten = temp.place :: frames.flatten :=
    flatten_declare hinside _
  -- the name of the temporary is new, so it is no variable that is there already
  have hplaced : temp.place.placed ∉ frames.flatten.map Local.placed := by
    intro hmem
    obtain ⟨w, hw, heq⟩ := mem_map.mp hmem
    have hname : w.name = temp.place.name := congrArg Prod.fst heq
    exact hfree (hname ▸ hstate.owning.name_mem_taken hw)
  have hnot : temp.place ∉ hollow :=
    fun hmem => hfree (hstate.owning.name_mem_taken (hstate.empty _ hmem).1)
  have hself : temp.place.name ∈ own ++ (frames.declare temp.place).flatten.map (·.name) := by
    rw [hflatten]
    simp
  have hknown : temp.value.names ⊆ own ++ (frames.declare temp.place).flatten.map (·.name) := by
    refine Subset.trans hnames ?_
    rw [hflatten]
    exact append_subset.mpr
      ⟨subset_append_left _ _, Subset.trans (subset_cons_self _ _) (subset_append_right _ _)⟩
  have hsetup : temp.setup =
      [.declaration ⟨temp.place.type, temp.place.location⟩ temp.place.name temp.place.location] ++
        (.assignment ⟨temp.place.name, temp.place.location⟩ temp.value temp.place.location ::
          if copies temp.value temp.place.type then
            [.retain temp.place.name temp.place.location] else []) := rfl
  rw [hsetup]
  refine safe_append (safe_declaration _ (.inr hfree) htaken hlater hplaced) ?_ state hstate
  exact safe_fill hcall (lookup_declare hinside _) (fun _ => howned) hflat hself hknown hnot _ _

/-- Temporaries get their values, one after the other. -/
theorem safe_setups (hcall : CallsOwn types call) {known : List String}
    (h : SetUp types known temps) (hnames : known ⊆ own ++ frames.flatten.map (·.name))
    (hcounted : ∀ temp ∈ temps, temp.place.isCounted = true)
    (hfree : ∀ temp ∈ temps, temp.place.name ∉ taken) (hnodup : (temps.map (·.place.name)).Nodup)
    (htaken : taken ⊆ later) (hlater : ∀ temp ∈ temps, temp.place.name ∈ later) :
    Safe (Owned own taken outer frames hollow) (runAll setting program call
      (temps.flatMap Temp.setup))
      (GoesOn (Owned own later outer ((temps.map Temp.place).foldl declare frames) hollow)) := by
  -- each temporary is a variable for those behind it, so the frames grow along the list
  induction h generalizing frames taken with
  | nil => exact .pure fun _ hstate => ⟨rfl, hstate.mono htaken⟩
  | @cons known temp temps hflat _ hvalue _ ih =>
    intro state hstate
    rw [forall_mem_cons] at hcounted hfree hlater
    rw [map_cons, nodup_cons] at hnodup
    have howned : temp.place.owned = true := (Bool.and_eq_true_iff.mp hcounted.1).1
    have hflatten : (frames.declare temp.place).flatten = temp.place :: frames.flatten :=
      flatten_declare hstate.owning.inside _
    have hnames' :
        temp.place.name :: known ⊆ own ++ (frames.declare temp.place).flatten.map (·.name) := by
      rw [hflatten]
      intro name hname
      rcases mem_cons.mp hname with rfl | hname
      · simp
      · have := hnames hname
        simp only [map_cons, mem_append, mem_cons] at this ⊢
        tauto
    have hfree' : ∀ other ∈ temps, other.place.name ∉ temp.place.name :: taken := by
      intro other hother hmem
      rcases mem_cons.mp hmem with heq | hmem
      · exact hnodup.1 (heq ▸ mem_map_of_mem hother)
      · exact hfree.2 other hother hmem
    rw [flatMap_cons]
    refine safe_append (safe_setup hcall howned hflat (Subset.trans hvalue hnames) hfree.1
      (subset_cons_self _ _) mem_cons_self) ?_ state hstate
    exact ih hnames' hcounted.2 hfree' hnodup.2 (cons_subset.mpr ⟨hlater.1, htaken⟩) hlater.2

/-- Variables give back their references. -/
theorem safe_releases {env : Env Nat} {refs : List (Value Nat)} {locals : List Local}
    (h : ∀ v ∈ locals, env.findAt v.name v.location = some (slotOf v (env.valueOf v))) :
    Safe (Books env outer (holdings env locals ++ refs))
      (runAll setting program call (releases locals)) (GoesOn (Books env outer refs)) := by
  induction locals with
  | nil => exact .pure fun _ hstate => ⟨rfl, hstate⟩
  | cons v locals ih =>
    rw [forall_mem_cons] at h
    cases hcounted : v.isCounted with
    | false =>
      rw [holdings_cons_of_not_counted hcounted, releases, filter_cons_of_neg (by simp [hcounted])]
      exact ih h.2
    | true =>
      rw [holdings_cons_of_counted hcounted, releases, filter_cons_of_pos hcounted,
        map_cons, runAll, execAll, Local.release, exec, bind_assoc]
      refine Holds.bind (safe_release h.1) fun _ => ?_
      rw [pure_bind]
      exact ih h.2

theorem releaseTemps_eq (hcounted : ∀ temp ∈ temps, temp.place.isCounted = true) :
    Lower.releaseTemps temps = releases (temps.map Temp.place).reverse := by
  rw [releases, filter_eq_self.mpr]
  · rw [Lower.releaseTemps, ← map_reverse, map_map]
    rfl
  · intro v hv
    obtain ⟨temp, htemp, rfl⟩ := mem_map.mp (mem_reverse.mp hv)
    exact hcounted temp htemp

/-- The temporaries of a statement go, and so do their references. -/
theorem safe_releaseTemps (hcounted : ∀ temp ∈ temps, temp.place.isCounted = true)
    (hown : ∀ temp ∈ temps, temp.place.name ∉ own)
    (hfree : ∀ w ∈ frames.flatten, w.name ∉ temps.map (·.place.name)) :
    Safe (Owned own taken outer ((temps.map Temp.place).foldl declare frames) [])
      (runAll setting program call (Lower.releaseTemps temps))
      (GoesOn (Owned own taken outer frames [])) := by
  intro state hstate
  have hinside : frames ≠ [] := by
    rintro rfl
    exact hstate.owning.inside (eq_nil_of_length_eq_zero (length_declareAll [] _))
  have hflatten := flatten_declareAll hinside (temps.map Temp.place)
  -- the slots of the temporaries stay, but nobody looks at them again
  have howning : Owning own taken outer frames state.env := by
    refine hstate.owning.forget (fun v hv => ?_) fun w hw => ?_
    · obtain ⟨temp, htemp, rfl⟩ := mem_map.mp hv
      exact hown temp htemp
    · rw [map_map]
      exact hfree w hw
  have hslots : ∀ v ∈ (temps.map Temp.place).reverse,
      state.env.findAt v.name v.location = some (slotOf v (state.env.valueOf v)) :=
    fun v hv => hstate.owning.findAt (hflatten ▸ mem_append_left _ hv)
  have hcounts := hstate.counts
  rw [hflatten, holdings_append] at hcounts
  rw [releaseTemps_eq hcounted]
  exact (safe_releases hslots).weaken (fun _ => id)
    (fun _ _ h => ⟨h.1, .of_books howning (by simp [Hollow]) h.2⟩) state ⟨rfl, hcounts⟩

/-- A variable gets the reference of a temporary, after it has released what it held. -/
theorem safe_replace {temp : Local} (hv : frames.lookup target.text = some v)
    (hcounted : v.isCounted = true) (htarget : target.text ∈ own) (htemp : temp.isCounted = true)
    (hown : temp.name ∉ own) (hfree : temp.name ∉ frames.flatten.map (·.name))
    (location : Location) :
    Safe (Owned own taken outer (frames.declare temp) []) (runAll setting program call
        [.release target.text v.location, .assignment target temp.use location])
      (GoesOn (Owned own taken outer frames [])) := by
  intro state hstate
  obtain ⟨hmem, hname⟩ := mem_of_lookup hv
  have hflatten : (frames.declare temp).flatten = temp :: frames.flatten := by
    refine flatten_declare ?_ temp
    rintro rfl
    cases hmem
  -- the temporary is not released: its reference goes over to the variable
  have howning : Owning own taken outer frames state.env := by
    have hforget : Owning own taken outer ([temp].foldl declare frames) state.env := hstate.owning
    refine hforget.forget (fun w hw => ?_) fun w hw hmem => ?_
    · rw [mem_singleton.mp hw]
      exact hown
    · rw [map_singleton, mem_singleton] at hmem
      exact hfree (hmem ▸ mem_map_of_mem hw)
  have htarget' : target.text ∈ own ++ frames.flatten.map (·.name) := mem_append_left _ htarget
  have howned : v.owned = true := (Bool.and_eq_true_iff.mp hcounted).1
  have hheap : isHeap v.type = true := (Bool.and_eq_true_iff.mp hcounted).2
  -- the references of the variable, of the temporary, and of all others
  have hcounts : Counts outer (state.env.valueOf v :: state.env.valueOf temp ::
      holdings state.env (frames.flatten.erase v)) state.store := by
    have hall := hstate.counts
    rw [hflatten, holdings_cons_of_counted htemp] at hall
    exact (howning.counts_iff hmem (fun _ => howned) [state.env.valueOf temp]).mp hall
  have hslot : state.env.findAt target.text v.location =
      some (slotOf v (state.env.valueOf v)) := hname ▸ howning.findAt hmem
  have hfind : state.env.find temp.name = some (slotOf temp (state.env.valueOf temp)) := by
    rw [hstate.owning.find (by rw [hflatten]; simp), lookup_declare (by rintro rfl; cases hmem)]
    rfl
  have hrun : Safe (Books state.env outer (state.env.valueOf v :: state.env.valueOf temp ::
        holdings state.env (frames.flatten.erase v)))
      (runAll setting program call [.release target.text v.location,
        .assignment target temp.use location])
      (GoesOn (Books (Env.update target.text (state.env.valueOf temp) state.env) outer
        (state.env.valueOf temp :: holdings state.env (frames.flatten.erase v)))) := by
    simp only [runAll, execAll, exec, Local.use, eval, bind_assoc, pure_bind]
    refine Holds.bind (safe_release hslot) fun _ => ?_
    refine Holds.step (safe_readName fun slot hslot => ?_) fun value hvalue => ?_
    · rw [hfind] at hslot
      cases hslot
      exact .of_mem mem_cons_self
    · rw [hvalue.1 _ hfind]
      refine Holds.step (safe_assign (.of_mem mem_cons_self)) fun _ _ => ?_
      exact .pure fun _ hbooks => ⟨rfl, hbooks⟩
  refine hrun.weaken (fun _ => id) (fun _ after hafter => ⟨hafter.1, ?_⟩) state ⟨rfl, hcounts⟩
  exact .of_books (howning.update htarget' hv fun _ => ⟨hheap, howned⟩) (by simp [Hollow])
    ⟨hafter.2.1, howning.counts_update htarget' hv (fun _ => ⟨hheap, howned⟩) hafter.2.2⟩

end Parts

end FrontEnd.Execution
