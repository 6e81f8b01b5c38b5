import FrontEnd.Proofs.Refcount.Safety
import FrontEnd.Proofs.Scope.Lexical

/-!
# What releases stand for

A release has the name of a variable and the place where it was declared. In a lowered program there
is always exactly one such variable to be seen from the release, and a return that comes next never
names it (`compile_releases`).

The name alone is not enough. All variables of a function are released in front of a return, those
of the bodies around too, and one of them may be hidden by a variable of a body further in:
`compile_hiddenRelease` has a program in which the name of a release stands for the very variable
that is returned next. This can happen in front of a return only. Other releases are for
temporaries, whose names are new, for the target of an assignment, which is written with the same
name, or for the variables of a body at its end, which nothing hides there.

The proof follows lowering, with what can be seen from each statement on one side and what lowering
knows of the variables on the other (`Seen`).
-/

namespace FrontEnd

open Bindings

open Refcount.Lower List

/-! ### Releases that are meant for a variable -/

/-- A release that is meant for a variable which can be seen. `returned` is what the function
returns next, if there are only more releases in between. -/
structure Meant (bindings : Bindings) (placed : String × Location)
    (returned : Option Expr) : Prop where
  once : bindings.flatten.count placed = 1
  found : placed ∈ bindings.headD [] ∨ bindings.lookup placed.1 = some placed ∨
  returned.isSome = true
  kept : ∀ result, returned = some (.name result) → bindings.lookup result.text ≠ some placed

/-- All releases of a block are meant for variables. -/
def Careful (bindings : Bindings) (following block : List Stmt) : Prop :=
  ∀ site ∈ sitesOfAll bindings following block, ∀ name location,
    site.stmt = .release name location →
    Meant site.bindings (name, location) (returned? site.rest)

/-- What is returned next is no variable, or one that the program names. -/
def Tame (own : List String) (following : List Stmt) : Prop :=
  ∀ result, returned? following = some (.name result) → result.text ∈ own

/-- Whether a statement releases nothing, neither by itself nor in a body. -/
def Stmt.isQuiet : Stmt → Bool
  | .conditional .. | .function .. | .release .. => false
  | _ => true

section Careful

variable {bindings : Bindings} {following : List Stmt} {block : List Stmt}

theorem careful_append {first second : List Stmt} : Careful bindings following (first ++ second) ↔
    Careful bindings (second ++ following) first ∧
    Careful (bindings.behindAll first) following second := by
  simp only [Careful, sitesOfAll_append, forall_mem_append]

theorem careful_of_quiet (h : ∀ stmt ∈ block, stmt.isQuiet = true) :
    Careful bindings following block := by
  induction block generalizing bindings with
  | nil => exact fun site hsite => by cases hsite
  | cons stmt block ih =>
    rw [forall_mem_cons] at h
    intro site hsite name location hstmt
    rw [sitesOfAll, mem_append] at hsite
    rcases hsite with hsite | hsite
    · have hquiet := h.1
      cases stmt with
      | conditional | function | release => cases hquiet
      | expression | declaration | assignment | result | retain =>
        rw [sitesOf, mem_singleton] at hsite
        · subst hsite
          cases hstmt
        all_goals simp
    · exact ih h.2 site hsite name location hstmt

open Refcount

theorem returned?_releases (locals : List Local) :
    returned? (locals.map Local.release ++ following) = returned? following := by
  induction locals with
  | nil => rfl
  | cons v locals ih => exact ih

/-- Where nothing is declared, the same can be seen. -/
theorem behindAll_eq_self (h : ∀ stmt ∈ block, bindings.behind stmt = bindings) :
    bindings.behindAll block = bindings := by
  induction block with
  | nil => rfl
  | cons stmt block ih =>
    rw [forall_mem_cons] at h
    rw [behindAll, foldl_cons, h.1]
    exact ih h.2

theorem behindAll_releases (locals : List Local) :
    bindings.behindAll (locals.map Local.release) = bindings :=
  behindAll_eq_self (forall_mem_map.mpr fun _ _ => rfl)

/-- Releases one after the other, in front of the same return. -/
theorem careful_releases {locals : List Local}
    (h : ∀ v ∈ locals, Meant bindings v.placed (returned? following)) :
    Careful bindings following (locals.map Local.release) := by
  induction locals with
  | nil => exact fun site hsite => by cases hsite
  | cons v locals ih =>
    rw [forall_mem_cons] at h
    intro site hsite name location hstmt
    rw [map_cons, sitesOfAll, mem_append] at hsite
    rcases hsite with hsite | hsite
    · rw [Local.release, sitesOf, mem_singleton] at hsite
      · subst hsite
        cases hstmt
        rw [returned?_releases]
        exact h.1
      all_goals simp
    · exact ih h.2 site hsite name location hstmt

theorem releaseTemps_eq_map (temps : List Temp) :
    releaseTemps temps = (temps.map Temp.place).reverse.map Local.release := by
  rw [releaseTemps, map_reverse, map_reverse, map_map]
  rfl

/-! ### Setting up temporaries -/

theorem isQuiet_setup (temp : Temp) : ∀ stmt ∈ temp.setup, stmt.isQuiet = true := by
  intro stmt hstmt
  simp only [Temp.setup, cons_append, nil_append, mem_cons] at hstmt
  rcases hstmt with rfl | rfl | hstmt
  · rfl
  · rfl
  · split at hstmt
    · rw [mem_singleton.mp hstmt]
      rfl
    · cases hstmt

theorem isQuiet_setups (temps : List Temp) :
    ∀ stmt ∈ temps.flatMap Temp.setup, stmt.isQuiet = true := by
  intro stmt hstmt
  obtain ⟨temp, -, hstmt⟩ := mem_flatMap.mp hstmt
  exact isQuiet_setup temp stmt hstmt

theorem behindAll_setup (temp : Temp) :
    bindings.behindAll temp.setup = bindings.declare temp.place.placed := by
  rw [Temp.setup]
  split <;> rfl

theorem behindAll_setups (temps : List Temp) : bindings.behindAll (temps.flatMap Temp.setup) =
      (temps.map Temp.place).foldl (fun seen v => seen.declare v.placed) bindings := by
  induction temps generalizing bindings with
  | nil => rfl
  | cons temp temps ih =>
    rw [flatMap_cons, behindAll_append, behindAll_setup, ih]
    rfl

/-- Behind a statement that sets something up there is no return. -/
theorem returned?_setups {temps : List Temp} {value : Expr}
    (h : returned? (temps.flatMap Temp.setup ++ following) = some value) :
    returned? following = some value := by
  cases temps with
  | nil => exact h
  | cons => cases h

end Careful

namespace Execution

open Refcount

/-! ### What lowering knows of what can be seen -/

/-- The variables that lowering knows are to be seen, each of them once. What else can be seen are
temporaries that are not used any more. -/
def Seen (own taken : List String) (frames : Frames) (bindings : Bindings) : Prop :=
  ∃ dead, ∃ env : Env Data, Laid own taken dead frames env ∧ env.places = bindings

namespace Seen

variable {own taken later : List String} {frames : Frames} {bindings : Bindings} {v : Local}
  {name : String} {locals : List Local}

section

variable (h : Seen own taken frames bindings)
include h

theorem inside : frames ≠ [] := by
  obtain ⟨dead, env, hlaid, -⟩ := h
  exact hlaid.inside

theorem own_taken : own ⊆ taken := by
  obtain ⟨dead, env, hlaid, -⟩ := h
  exact hlaid.own_taken

theorem name_mem_taken (hv : v ∈ frames.flatten) : v.name ∈ taken := by
  obtain ⟨dead, env, hlaid, -⟩ := h
  exact hlaid.name_mem_taken hv

theorem mono (htaken : taken ⊆ later) : Seen own later frames bindings := by
  obtain ⟨dead, env, hlaid, hplaces⟩ := h
  exact ⟨dead, env, hlaid.mono htaken, hplaces⟩

theorem push : Seen own taken ([] :: frames) ([] :: bindings) := by
  obtain ⟨dead, env, hlaid, rfl⟩ := h
  exact ⟨dead, [] :: env, hlaid.push, rfl⟩

/-- A variable of the program is declared. -/
theorem declare_own (hname : v.name ∈ own) (hplaced : v.placed ∉ frames.flatten.map Local.placed) :
    Seen own taken (frames.declare v) (bindings.declare v.placed) := by
  obtain ⟨dead, env, hlaid, rfl⟩ := h
  exact ⟨dead, env.declare (slotOf v .unset),
    hlaid.declare (hlaid.named _ hname) (hlaid.own_taken hname) hplaced .unset,
    Env.places_declare _ _⟩

/-- A variable with a new name is declared. -/
theorem declare_new (hfree : v.name ∉ taken) :
    Seen own (v.name :: taken) (frames.declare v) (bindings.declare v.placed) := by
  obtain ⟨dead, env, hlaid, rfl⟩ := h
  refine ⟨dead, env.declare (slotOf v .unset), ?_, Env.places_declare _ _⟩
  refine (hlaid.mono (subset_cons_self _ _)).declare ?_ mem_cons_self ?_ .unset
  · exact fun hdead => hfree (hlaid.dead_taken hdead)
  · intro hmem
    obtain ⟨w, hw, hplaced⟩ := mem_map.mp hmem
    have hname : w.name = v.name := congrArg Prod.fst hplaced
    exact hfree (hname ▸ hlaid.name_mem_taken hw)

/-- Variables with new names are declared, one after the other. -/
theorem declareAll (hfree : ∀ v ∈ locals, v.name ∉ taken)
    (hnodup : (locals.map (·.name)).Nodup) (hlater : taken ⊆ later)
    (hmem : ∀ v ∈ locals, v.name ∈ later) :
    Seen own later (locals.foldl Frames.declare frames)
      (locals.foldl (fun seen v => seen.declare v.placed) bindings) := by
  induction locals generalizing taken frames bindings with
  | nil => exact h.mono hlater
  | cons v locals ih =>
    rw [forall_mem_cons] at hfree hmem
    rw [map_cons, nodup_cons] at hnodup
    refine ih (h.declare_new hfree.1) (fun w hw hwtaken => ?_) hnodup.2 ?_ hmem.2
    · rcases mem_cons.mp hwtaken with hsame | htaken
      · exact hnodup.1 (hsame ▸ mem_map_of_mem hw)
      · exact hfree.2 w hw htaken
    · exact cons_subset.mpr ⟨hmem.1, hlater⟩

end

/-- Variables that the program does not name can be forgotten. -/
theorem forget (h : Seen own taken (locals.foldl Frames.declare frames) bindings)
    (hown : ∀ v ∈ locals, v.name ∉ own)
    (hfree : ∀ w ∈ frames.flatten, w.name ∉ locals.map (·.name)) :
    Seen own taken frames bindings := by
  obtain ⟨dead, env, hlaid, hplaces⟩ := h
  exact ⟨_, env, hlaid.forget hown hfree, hplaces⟩

section

variable (h : Seen own taken frames bindings)
include h

/-- A variable that lowering knows is to be seen once. -/
theorem count (hv : v ∈ frames.flatten) : bindings.flatten.count v.placed = 1 := by
  obtain ⟨dead, env, hlaid, rfl⟩ := h
  -- what is dead has another name
  have hlive : (env.flatten.map Slot.placed).count v.placed =
      ((env.flatten.filter (·.name ∉ dead)).map Slot.placed).count v.placed := by
    rw [count_eq_countP, count_eq_countP, countP_map, countP_map, countP_filter]
    refine countP_congr fun slot _ => ?_
    simp only [Function.comp_apply, beq_iff_eq, Bool.and_eq_true, decide_eq_true_eq]
    refine ⟨fun hplaced => ⟨hplaced, ?_⟩, And.left⟩
    have hname : slot.name = v.name := congrArg Prod.fst hplaced
    exact hname ▸ hlaid.name_not_mem_dead hv
  have hplaced := congrArg (List.map fun key => (key.1, key.2.2)) hlaid.flatten_keys
  rw [map_map, map_map] at hplaced
  have hlocals :
      (env.flatten.filter (·.name ∉ dead)).map Slot.placed = frames.flatten.map Local.placed :=
        hplaced
  rw [Env.flatten_places, hlive, hlocals]
  exact count_eq_one_of_mem hlaid.distinct (mem_map_of_mem hv)

/-- A name of the program stands for what lowering takes it to stand for. -/
theorem lookup_own (hname : name ∈ own) :
    bindings.lookup name = (frames.lookup name).map Local.placed := by
  obtain ⟨dead, env, hlaid, rfl⟩ := h
  rw [Env.lookup_places, hlaid.find (hlaid.named name hname), Option.map_map]
  rfl

/-- So does the name of a variable that lowering knows. -/
theorem lookup (hv : frames.lookup name = some v) : bindings.lookup name = some v.placed := by
  obtain ⟨dead, env, hlaid, rfl⟩ := h
  obtain ⟨hmem, hname⟩ := Frames.mem_of_lookup hv
  rw [Env.lookup_places, hlaid.find (hname ▸ hlaid.name_not_mem_dead hmem), hv]
  rfl

theorem mem_headD (hv : v ∈ frames.headD []) : v.placed ∈ bindings.headD [] := by
  obtain ⟨dead, env, hlaid, rfl⟩ := h
  have hkeys := hlaid.keys
  cases frames with
  | nil => cases hv
  | cons top =>
    cases env with
    | nil => cases hkeys
    | cons frame =>
      have htop : (frame.map Slot.key).filter (·.1 ∉ dead) = top.map Local.key := (cons.inj hkeys).1
      have hkey := mem_map_of_mem (f := Local.key) hv
      rw [headD_cons, ← htop] at hkey
      obtain ⟨slot, hslot, hsame⟩ := mem_map.mp (mem_filter.mp hkey).1
      simp only [Slot.key, Local.key, Prod.mk.injEq] at hsame
      exact mem_map.mpr ⟨slot, hslot, Prod.ext hsame.1 hsame.2.2⟩

theorem nodup : (frames.flatten.map Local.placed).Nodup := by
  obtain ⟨dead, env, hlaid, -⟩ := h
  exact hlaid.distinct

end

end Seen

theorem name_of_lookup {bindings : Bindings} {name : String} {placed : String × Location}
    (h : bindings.lookup name = some placed) : placed.1 = name := by
  simpa using find?_some h

section Releases

variable {own taken later : List String} {frames : Frames} {bindings : Bindings} {v : Local}
  {following : List Stmt} {locals : List Local}

/-- The release of a temporary. -/
theorem meant_temp (h : Seen own taken frames bindings) (hv : frames.lookup v.name = some v)
    (hown : v.name ∉ own) (htame : Tame own following) :
    Meant bindings v.placed (returned? following) where
  once := h.count (Frames.mem_of_lookup hv).1
  found := .inr (.inl (h.lookup hv))
  kept result hresult hlookup := by
    have hname : v.name = result.text := name_of_lookup hlookup
    exact hown (hname ▸ htame result hresult)

/-- Temporaries are found by their names. -/
theorem lookup_declareAll (hinside : frames ≠ []) (hnodup : (locals.map (·.name)).Nodup)
    (hv : v ∈ locals) :
    Frames.lookup (locals.foldl Frames.declare frames) v.name = some v := by
  have hlookup : Frames.lookup [locals.reverse] v.name = some v :=
    Frames.lookup_of_nodup (by simpa using hnodup) (by simpa using hv)
  rw [Frames.lookup, flatten_singleton] at hlookup
  rw [Frames.lookup, Frames.flatten_declareAll hinside, find?_append, hlookup]
  rfl

/-- Temporaries are released, newest first, and are of no use behind that. -/
theorem careful_forget (hinside : frames ≠ [])
    (h : Seen own taken (locals.foldl Frames.declare frames) bindings)
    (hnodup : (locals.map (·.name)).Nodup) (hown : ∀ v ∈ locals, v.name ∉ own)
    (htame : Tame own following) :
    Careful bindings following (locals.reverse.map Local.release) := by
  refine careful_releases fun v hv => ?_
  rw [mem_reverse] at hv
  exact meant_temp h (lookup_declareAll hinside hnodup hv) (hown v hv) htame

/-- The variables of a body are released at its end. -/
theorem careful_releaseInnermost (h : Seen own taken frames bindings) :
    Careful bindings [] frames.releaseInnermost := by
  refine careful_releases fun v hv => ?_
  have hmem : v ∈ frames.headD [] := (mem_filter.mp hv).1
  refine ⟨h.count ?_, .inl (h.mem_headD hmem), fun result hresult => by cases hresult⟩
  cases frames with
  | nil => cases hmem
  | cons => exact mem_append_left _ hmem

end Releases

/-! ### Statements -/

section Statements

variable {types : ReturnTypes} {own later : List String} {state : Lowering} {bindings : Bindings}
  {following : List Stmt} {value : Expr} {location : Location} {frames : Frames} {type : String}
  {seen : Bindings} {taken : List String} {name : Name}

/-- What can be seen when the temporaries of an expression have been made. -/
theorem Seen.hoist (h : Seen own state.names.taken state.frames bindings) (value : Expr) :
    Seen own (hoist value state).2.names.taken (hoistedFrames value state)
      (bindings.behindAll ((hoist value state).1.2.flatMap Temp.setup)) := by
  have hnew := newTemps_hoist value state
  rw [behindAll_setups]
  refine h.declareAll ?_ ?_ (later_hoist value).taken ?_
  · exact forall_mem_map.mpr hnew.free
  · rw [map_map]
    exact hnew.nodup
  · exact forall_mem_map.mpr hnew.taken

section

variable (h : Seen own state.names.taken frames bindings)
include h

/-- One more temporary. -/
theorem Seen.makeTemp (value : Expr) (type : String) :
    Seen own (Lower.makeTemp value type state).2.names.taken
      (frames.declare (Lower.makeTemp value type state).1.place)
      (bindings.behindAll (Lower.makeTemp value type state).1.setup) := by
  rw [behindAll_setup]
  exact h.declare_new (name_makeTemp_not_mem value type)

/-- A temporary has a name that no variable of the program has. -/
theorem Seen.makeTemp_not_mem (value : Expr) (type : String) :
    (Lower.makeTemp value type state).1.place.name ∉ own :=
  fun hown => name_makeTemp_not_mem value type (h.own_taken hown)

/-- A temporary that was made last can be forgotten. -/
theorem Seen.forget_makeTemp
    (hseen : Seen own later (frames.declare (Lower.makeTemp value type state).1.place) seen) :
    Seen own later frames seen := by
  have hseen : Seen own later ([(Lower.makeTemp value type state).1.place].foldl Frames.declare
      frames) seen := hseen
  refine hseen.forget (forall_mem_singleton.mpr (h.makeTemp_not_mem value type)) fun w hw hmem => ?_
  have hname : w.name = (Lower.makeTemp value type state).1.place.name := mem_singleton.mp hmem
  exact name_makeTemp_not_mem value type (hname ▸ h.name_mem_taken hw)

end

section

variable (h : Seen own state.names.taken state.frames bindings)
include h

/-- The temporaries of an expression can be forgotten. -/
theorem Seen.forget_hoist
    (hseen : Seen own later (hoistedFrames value state) seen) :
    Seen own later state.frames seen := by
  refine hseen.forget (fun v hv => (mem_places_hoist h.own_taken hv).2) fun w hw hmem => ?_
  have hnew := newTemps_hoist value state
  rw [map_map] at hmem
  obtain ⟨temp, htemp, hname⟩ := mem_map.mp hmem
  have hname : temp.place.name = w.name := hname
  exact hnew.free temp htemp (hname ▸ h.name_mem_taken hw)

/-- Statements that use temporaries, between their setup and their release. -/
theorem careful_withTemps {core : List Stmt}
    (hcore : ∀ {seen : Bindings}, Seen own (hoist value state).2.names.taken
        (hoistedFrames value state) seen →
      Careful seen (releaseTemps (hoist value state).1.2 ++ following) core ∧
      Seen own later (hoistedFrames value state) (seen.behindAll core))
    (htame : Tame own following) :
    Careful bindings following ((hoist value state).1.2.flatMap Temp.setup ++ core ++
        releaseTemps (hoist value state).1.2) ∧
      Seen own later state.frames
        (bindings.behindAll ((hoist value state).1.2.flatMap Temp.setup ++ core ++
          releaseTemps (hoist value state).1.2)) := by
  have hnew := newTemps_hoist value state
  obtain ⟨hcareful, hseen⟩ := hcore (h.hoist value)
  rw [careful_append, careful_append, releaseTemps_eq_map]
  simp only [behindAll_append, behindAll_releases]
  rw [releaseTemps_eq_map] at hcareful
  refine ⟨⟨⟨careful_of_quiet (isQuiet_setups _), hcareful⟩, ?_⟩, h.forget_hoist hseen⟩
  refine careful_forget h.inside hseen ?_ (fun v hv => (mem_places_hoist h.own_taken hv).2) htame
  rw [map_map]
  exact hnew.nodup

theorem careful_expression (htame : Tame own following) :
    Careful bindings following (Lower.expression value location state).1 ∧
      Seen own (Lower.expression value location state).2.names.taken state.frames
        (bindings.behindAll (Lower.expression value location state).1) := by
  have htemps : Tame own (releaseTemps (hoist value state).1.2 ++ following) := by
    intro result hresult
    rw [releaseTemps_eq_map, returned?_releases] at hresult
    exact htame result hresult
  rw [expression_eq]
  split
  · -- a value that nobody wants is in a temporary for a moment
    next type _ _ =>
    refine careful_withTemps h (fun hseen => ?_) htame
    have hmade := hseen.makeTemp (hoist value state).1.1 type
    rw [careful_append, behindAll_append]
    refine ⟨⟨careful_of_quiet (isQuiet_setup _), ?_⟩, hseen.forget_makeTemp hmade⟩
    have hmeant :=
      meant_temp hmade (Frames.lookup_declare hseen.inside _) (hseen.makeTemp_not_mem _ _) htemps
    exact careful_releases (forall_mem_singleton.mpr hmeant)
  · refine careful_withTemps h (fun hseen => ⟨careful_of_quiet ?_, hseen⟩) htame
    simp [Stmt.isQuiet]

theorem careful_assignment {fresh : Bool} {target : Name} (htarget : target.text ∈ own)
    (htame : Tame own following) :
    Careful bindings following (Lower.assignment fresh target value location state).1 ∧
      Seen own (Lower.assignment fresh target value location state).2.names.taken state.frames
        (bindings.behindAll (Lower.assignment fresh target value location state).1) := by
  rw [assignment_eq]
  split
  · refine careful_withTemps h (fun hseen => ⟨careful_of_quiet ?_, hseen⟩) htame
    simp [Stmt.isQuiet]
  · refine careful_withTemps h (fun hseen => ?_) htame
    split
    · exact ⟨careful_of_quiet (by simp [Stmt.isQuiet]), hseen⟩
    · exact ⟨careful_of_quiet (by simp [Stmt.isQuiet]), hseen⟩
  · next v hfound =>
    refine careful_withTemps h (fun hseen => ?_) htame
    have hmade := hseen.makeTemp (hoist value state).1.1 v.type
    have hv : state.frames.lookup target.text = some v := (Option.filter_eq_some_iff.mp hfound).1
    obtain ⟨hmem, hname⟩ := Frames.mem_of_lookup hv
    -- the temporaries do not hide the target
    have hlookup : Frames.lookup ((hoistedFrames value state).declare
        (Lower.makeTemp (hoist value state).1.1 v.type (hoist value state).2).1.place)
        target.text = some v := by
      rw [Frames.lookup, Frames.flatten_declare hseen.inside, find?_cons_of_neg]
      · exact (lookup_hoistedFrames h.own_taken h.inside htarget).trans hv
      · intro hsame
        exact hseen.makeTemp_not_mem _ _ (of_decide_eq_true hsame ▸ htarget)
    have hsplit : ∀ stmt, [Stmt.release target.text v.location, stmt] =
        [v].map Local.release ++ [stmt] := by
      intro stmt
      rw [← hname]
      rfl
    rw [hsplit, careful_append, careful_append, behindAll_append]
    refine ⟨⟨careful_of_quiet (isQuiet_setup _), careful_releases fun w hw => ?_,
      careful_of_quiet (by simp [Stmt.isQuiet])⟩, hseen.forget_makeTemp hmade⟩
    rw [mem_singleton.mp hw]
    refine ⟨hmade.count (Frames.mem_of_lookup hlookup).1, .inr (.inl ?_), fun result hresult => by
      cases hresult⟩
    rw [show v.placed.1 = target.text from hname]
    exact hmade.lookup hlookup

end

/-- Releases in front of a return. -/
theorem careful_beforeResult {locals : List Local}
    (h : ∀ v ∈ locals, Meant bindings v.placed (some value)) :
    Careful bindings following (locals.map Local.release ++ [.result value location]) :=
  careful_append.mpr ⟨careful_releases h, careful_of_quiet (by simp [Stmt.isQuiet])⟩

/-- The variable that a name stands for is not among those that are released in front of its
return. -/
theorem meant_besideResult (h : Seen own taken frames bindings)
    (hname : name.text ∈ own) {v : Local} (hv : v ∈ frames.flatten.eraseP (·.name = name.text)) :
    Meant bindings v.placed (some (.name name)) where
  once := h.count (mem_of_mem_eraseP hv)
  found := .inr (.inr rfl)
  kept result hresult hlookup := by
    cases hresult
    rw [h.lookup_own hname] at hlookup
    obtain ⟨w, hw, hplaced⟩ := Option.map_eq_some_iff.mp hlookup
    have hnodup := ((Frames.perm_of_lookup hw).map Local.placed).nodup_iff.mp h.nodup
    rw [map_cons, nodup_cons] at hnodup
    exact hnodup.1 (hplaced ▸ mem_map_of_mem hv)

theorem careful_resultName (h : Seen own state.names.taken state.frames bindings)
    (hname : name.text ∈ own) :
    Careful bindings following (resultName name location state).1 ∧
        Seen own state.names.taken state.frames
          (bindings.behindAll (resultName name location state).1) := by
  have hreleases : Careful bindings following (state.frames.releaseAll (some name.text) ++
      [.result (.name name) location]) :=
    careful_beforeResult fun v hv => meant_besideResult h hname (mem_filter.mp hv).1
  have hbehind : bindings.behindAll (state.frames.releaseAll (some name.text) ++
      [.result (.name name) location]) = bindings := by
    rw [behindAll_append, Frames.releaseAll, releases, behindAll_releases]
    rfl
  rw [resultName_eq, append_assoc]
  split
  · rw [careful_append, behindAll_append]
    exact ⟨⟨careful_of_quiet (by simp [Stmt.isQuiet]), hreleases⟩, hbehind.symm ▸ h⟩
  · exact ⟨hreleases, hbehind.symm ▸ h⟩

/-- A value that is not in a variable gets a temporary, which is the only variable that is not
released. -/
theorem careful_resultValue (h : Seen own state.names.taken state.frames bindings)
    (hname : ∀ name, value ≠ .name name) (htype : valueType state.returnTypes value = some type) :
    Careful bindings following (resultValue value location state).1 ∧
      Seen own (resultValue value location state).2.names.taken state.frames
        (bindings.behindAll (resultValue value location state).1) := by
  have hhoisted := h.hoist value
  have hmade := hhoisted.makeTemp (hoist value state).1.1 type
  have hframes := flatten_hoistedFrames h.inside value
  -- the temporaries and all variables of the function, released in one go
  have hsplit : ∀ temp : Temp, (hoist value state).1.2.flatMap Temp.setup ++ temp.setup ++
        releaseTemps (hoist value state).1.2 ++ state.frames.releaseAll none ++
        [.result temp.use location] =
      (hoist value state).1.2.flatMap Temp.setup ++ (temp.setup ++
        ((((hoist value state).1.2.map Temp.place).reverse ++
          state.frames.flatten.filter Local.isCounted).map Local.release ++
            [.result temp.use location])) := by
    intro temp
    simp only [releaseTemps_eq_map, Frames.releaseAll, releases, map_append, append_assoc]
  rw [resultValue_eq hname, htype]
  simp only [hsplit]
  rw [careful_append, careful_append]
  simp only [behindAll_append, behindAll_releases]
  refine ⟨⟨careful_of_quiet (isQuiet_setups _), careful_of_quiet (isQuiet_setup _),
    careful_beforeResult fun v hv => ?_⟩, h.forget_hoist (hhoisted.forget_makeTemp hmade)⟩
  have hv : v ∈ (hoistedFrames value state).flatten := by
    rw [hframes]
    exact mem_append.mpr ((mem_append.mp hv).imp_right mem_of_mem_filter)
  refine ⟨hmade.count ?_, .inr (.inr rfl), fun result hresult hlookup => ?_⟩
  · rw [Frames.flatten_declare hhoisted.inside]
    exact mem_cons_of_mem _ hv
  · cases hresult
    have hsame : v.name = (Lower.makeTemp (hoist value state).1.1 type
      (hoist value state).2).1.place.name := name_of_lookup hlookup
    exact name_makeTemp_not_mem _ _ (hsame ▸ hhoisted.name_mem_taken hv)

/-! ### What is returned next -/

/-- In front of a lowered statement, what is returned next is a variable of the program. -/
theorem tame_statement (previous : Option Stmt) (stmt : Stmt)
    (h : Fit types own state.frames [stmt]) (htypes : state.returnTypes = types) :
    Tame own ((statement previous stmt state).1 ++ following) := by
  intro result hresult
  cases stmt with
  | result value location =>
    rw [statement] at hresult
    rcases value.name_or_ne with ⟨name, rfl⟩ | hname
    · have hmem : name.text ∈ own := h.names (by simp [Stmt.namesOfAll, Stmt.names, Expr.names])
      change returned? ((resultName name location state).1 ++ following) = _ at hresult
      rw [resultName_eq] at hresult
      split at hresult
      · cases hresult
      · rw [nil_append, append_assoc, Frames.releaseAll, releases, returned?_releases] at hresult
        cases hresult
        exact hmem
    · -- the value has a type, so that it is put into a temporary before it is returned
      obtain ⟨type, htype⟩ := Option.isSome_iff_exists.mp (h.typed hname)
      rw [result_of_ne_name hname, resultValue_eq hname, htypes, htype] at hresult
      simp only [append_assoc] at hresult
      cases returned?_setups hresult
  | expression =>
    rw [statement, expression_eq] at hresult
    split at hresult
    all_goals
      simp only [append_assoc] at hresult
      cases returned?_setups hresult
  | assignment =>
    rw [statement, assignment_eq] at hresult
    split at hresult
    all_goals
      simp only [append_assoc] at hresult
      have hcore := returned?_setups hresult
    · cases hcore
    · split at hcore <;> cases hcore
    · cases hcore
  | conditional =>
    rw [statement_conditional_eq] at hresult
    simp only [append_assoc] at hresult
    cases returned?_setups hresult
  | declaration => rw [statement] at hresult; cases hresult
  | function =>
    rw [statement] at hresult
    · cases hresult
    all_goals simp
  | retain | release => cases h.tidy_head

theorem tame_block (previous : Option Stmt) (block : List Stmt)
    (h : Fit types own state.frames block) (htypes : state.returnTypes = types)
    (htame : Tame own following) :
    Tame own ((Lower.block previous block state).1 ++ following) := by
  cases block with
  | nil => rwa [Lower.block]
  | cons stmt =>
    rw [block_cons_eq, append_assoc]
    exact tame_statement previous stmt h.head htypes

/-! ### Bodies -/

/-- The end of a body: what the body still owns is released, unless it has returned. -/
theorem careful_ended {lowered : List Stmt} (ends : Bool) (h : ∀ {following}, Tame own following →
      Careful bindings following lowered ∧ Seen own taken frames (bindings.behindAll lowered)) :
    Careful bindings [] (if ends then lowered else lowered ++ frames.releaseInnermost) := by
  have htame : Tame own (frames.releaseInnermost ++ []) := by
    intro result hresult
    rw [Frames.releaseInnermost, releases, returned?_releases] at hresult
    cases hresult
  cases ends with
  | true => exact (h fun result hresult => by cases hresult).1
  | false =>
    obtain ⟨hcareful, hseen⟩ := h htame
    exact careful_append.mpr ⟨hcareful, careful_releaseInnermost hseen⟩

theorem careful_conditional {condition : Expr} {body : List Stmt}
    (h : Careful ([] :: bindings) [] body) :
    Careful bindings following [.conditional condition body location] := by
  intro site hsite name place hstmt
  rw [sitesOfAll, sitesOf, sitesOfAll, append_nil, mem_cons] at hsite
  rcases hsite with rfl | hsite
  · cases hstmt
  · exact h site hsite name place hstmt

variable {globals : String → Option Entity} {returns : Option Ty}

mutual

theorem careful_statement (previous : Option Stmt) : ∀ (stmt : Stmt) {state : Lowering}
    {bindings : Bindings} {following : List Stmt}
    {start after : Env Data}, Allowed globals returns stmt start after →
    Fit types own state.frames [stmt] → state.returnTypes = types →
    Seen own state.names.taken state.frames bindings → Tame own following →
    Careful bindings following (statement previous stmt state).1 ∧
      Seen own (statement previous stmt state).2.names.taken
        (statement previous stmt state).2.frames
        (bindings.behindAll (statement previous stmt state).1)
  | .declaration type name location, state, bindings, following, _, _, _, hfit, _, hseen, _ => by
    rw [statement]
    refine ⟨careful_of_quiet (forall_mem_singleton.mpr rfl), hseen.declare_own ?_ ?_⟩
    · exact hfit.names (by simp [Stmt.namesOfAll, Stmt.names])
    · exact hfit.new (name, location) (by simp [Stmt.placesOfAll, Stmt.places])
  | .expression value location, state, bindings, following, _, _, _, _, _, hseen, htame => by
    rw [statement, (later_expression value location).frames]
    exact careful_expression hseen htame
  | .assignment target value location, state, bindings, following, _, _, _, hfit, _,
      hseen, htame => by
    rw [statement, (later_assignment _ target value location).frames]
    exact careful_assignment hseen (hfit.names (by simp [Stmt.namesOfAll, Stmt.names])) htame
  | .result value location, state, bindings, following, _, _, _, hfit, htypes, hseen, _ => by
    rw [statement, (later_result value location).frames]
    rcases value.name_or_ne with ⟨name, rfl⟩ | hname
    · exact careful_resultName hseen
        (hfit.names (by simp [Stmt.namesOfAll, Stmt.names, Expr.names]))
    · obtain ⟨type, htype⟩ := Option.isSome_iff_exists.mp (hfit.typed hname)
      rw [result_of_ne_name hname]
      exact careful_resultValue hseen hname (htypes ▸ htype)
  | .conditional condition body location, state, bindings, following, start, _, hallowed, hfit,
      htypes, hseen, _ => by
    rw [Allowed] at hallowed
    obtain ⟨-, inner, hinner, -⟩ := hallowed
    have hhoisted := hseen.hoist condition
    have hopened : Seen own (opened condition state).names.taken (opened condition state).frames
        ([] :: bindings.behindAll ((hoist condition state).1.2.flatMap Temp.setup)) := by
      rw [frames_opened]
      exact hhoisted.push
    have hgrown := grown_block none body (opened condition state)
    obtain ⟨top, hframes⟩ : ∃ top, (Lower.block none body (opened condition state)).2.frames =
        top :: hoistedFrames condition state := frames_block_opened condition body
    have htypes' : (opened condition state).returnTypes = types :=
      (later_hoist condition).returnTypes.trans htypes
    rw [statement_conditional_eq]
    refine ⟨careful_append.mpr ⟨careful_of_quiet (isQuiet_setups _), careful_conditional ?_⟩, ?_⟩
    · exact careful_ended _ fun htame =>
        careful_block none body hinner (hfit.opened hseen.own_taken) htypes' hopened htame
    · -- behind the body, the frames are those that have the temporaries of the condition
      have hlater := hhoisted.mono hgrown.taken
      rw [← show (_ :: hoistedFrames condition state).tail = _ from tail_cons, ← hframes] at hlater
      rw [behindAll_append]
      exact hlater
  | .function .., _, _, _, _, _, hallowed, _, _, _, _ => hallowed.elim
  | .retain .., _, _, _, _, _, _, hfit, _, _, _
  | .release .., _, _, _, _, _, _, hfit, _, _, _ => by cases hfit.tidy_head

theorem careful_block (previous : Option Stmt) : ∀ (block : List Stmt) {state : Lowering}
    {bindings : Bindings} {following : List Stmt}
    {start after : Env Data}, AllowedAll globals returns block start after →
    Fit types own state.frames block → state.returnTypes = types →
    Seen own state.names.taken state.frames bindings → Tame own following →
    Careful bindings following (Lower.block previous block state).1 ∧
      Seen own (Lower.block previous block state).2.names.taken (Lower.block previous block
        state).2.frames (bindings.behindAll (Lower.block previous block state).1)
  | [], state, bindings, following, _, _, _, _, _, hseen, _ => by
    rw [Lower.block]
    exact ⟨careful_of_quiet (forall_mem_nil _), hseen⟩
  | stmt :: block, state, bindings, following, start, after, hallowed, hfit, htypes,
      hseen, htame => by
    rw [AllowedAll] at hallowed
    obtain ⟨middle, hstmt, hblock⟩ := hallowed
    have hgrown := grown_statement previous stmt state
    have hnext := hfit.next hseen.own_taken previous
    have htypes' := hgrown.returnTypes.trans htypes
    have hfirst := careful_statement previous stmt hstmt hfit.head htypes hseen
      (tame_block (some stmt) block hnext htypes' htame)
    have hrest := careful_block (some stmt) block hblock hnext htypes' hfirst.2 htame
    rw [block_cons_eq, careful_append, behindAll_append]
    exact ⟨⟨hfirst.1, hrest.1⟩, hrest.2⟩

end

end Statements

/-! ### Functions and programs -/

section Files

variable {functions : List FunctionDef} {function output : FunctionDef} {types : ReturnTypes}
  {own : List String}

/-- A function starts with its parameters. -/
theorem seen_start (h : Suited types own function) {taken : List String} (hown : own ⊆ taken) :
    Seen own taken [(parameters function).reverse] (startOf function).places := by
  refine ⟨[], startOf function,
    ⟨?_, ?_, cons_ne_nil _ _, fun slot hslot => ?_, hown, by simp, nil_subset _⟩, rfl⟩
  · rw [startOf_eq]
    simp [parameters, Slot.key, Local.key, ofParameter, Function.comp_def]
  · rw [flatten_singleton]
    exact h.nodup_placed
  · rw [startOf_eq, flatten_singleton, mem_reverse] at hslot
    obtain ⟨parameter, hparameter, rfl⟩ := mem_map.mp hslot
    exact hown (h.parameter_mem (mem_map_of_mem hparameter))

theorem places_startOf (function : FunctionDef) : (startOf function).places =
    [(function.parameters.map fun parameter =>
      (parameter.name.text, parameter.name.location)).reverse] := by
  rw [startOf_eq]
  simp [Env.places, Slot.placed, Function.comp_def]

theorem distinct_startOf (h : function.WellFormed) : (startOf function).places.Distinct := by
  rw [places_startOf, Bindings.Distinct, forall_mem_singleton, map_reverse, nodup_reverse, map_map]
  exact h.distinct

/-- **All releases of a lowered function are meant for its variables.** -/
theorem careful_lowered (hallowed : AllowedFunction functions function)
    (h : Suited types own function) (hlowered : LoweredFrom types own function output) :
    Careful (startOf function).places [] output.body := by
  obtain ⟨context, htypes, hown, rfl⟩ := hlowered
  obtain ⟨after, hbody⟩ := hallowed.body
  rw [Context.lowerFunction_eq]
  -- the references that parameters take come first
  rw [careful_append, behindAll_eq_self (forall_mem_map.mpr fun _ _ => rfl)]
  refine ⟨careful_of_quiet (forall_mem_map.mpr fun _ _ => rfl), ?_⟩
  exact careful_ended _ fun htame =>
    careful_block none function.body hbody h.fit htypes (seen_start h hown) htame

/-- The statements of a file are its functions and what is in them. -/
theorem mem_sites_file {following : List Stmt} {site : Site}
    (h : site ∈ sitesOfAll [] following (functions.map FunctionDef.toStmt)) :
    ∃ function ∈ functions, site.stmt = function.toStmt ∨
      site ∈ sitesOfAll (startOf function).places [] function.body := by
  induction functions with
  | nil => cases h
  | cons function functions ih =>
    rw [map_cons, sitesOfAll, mem_append, FunctionDef.toStmt, sitesOf, mem_cons] at h
    rcases h with (rfl | hinside) | hrest
    · exact ⟨function, mem_cons_self, .inl rfl⟩
    · exact ⟨function, mem_cons_self, .inr (places_startOf function ▸ hinside)⟩
    · obtain ⟨other, hother, hsite⟩ := ih hrest
      exact ⟨other, mem_cons_of_mem _ hother, hsite⟩

end Files

end Execution

open Execution Refcount in
/-- **What releases release.** Let a text be compiled with reference counts. From each release of
the program exactly one variable can be seen that has the name and the place of the release. The
name alone stands for this variable, but for releases in front of a return, where it may also be
hidden by a variable of a body further in. The variable that is returned next, with only more
releases in between, is never the one that is released. -/
theorem compile_releases {source : String} {options : Options} {program : Program}
    (hlower : options.lowerRefcounts = true) (h : (compile source options).result = .ok program) :
    ∀ site ∈ program.sites, ∀ name location, site.stmt = .release name location →
      site.bindings.flatten.count (name, location) = 1 ∧
      (site.bindings.lookup name = some (name, location) ∨
        site.bindings.Hidden (name, location) ∧ (returned? site.rest).isSome = true) ∧
      ∀ result, returned? site.rest = some (.name result) →
        site.bindings.lookup result.text ≠ some (name, location) := by
  obtain ⟨functions, checked, hread, hfile, hprogram⟩ := compile_eq_ok h
  have hplaces :
      ∀ function ∈ functions, function.places.Nodup ∧ Stmt.writtenAll function.body = true :=
    fun function hmem => Program.read_places hread (List.mem_map_of_mem hmem)
  obtain ⟨lowered, hlowered, hfrom⟩ :=
    (Context.ofProgram (checked.map FunctionDef.toStmt)).lower_functions checked
  have hchecked := allowedFile_checked hfile
  have hallowed : AllowedFile lowered :=
    allowedFile_lowered hchecked (fun _ => names_subset_namesOfAll) hfrom
  rw [if_pos hlower, lower, hlowered] at hprogram
  subst hprogram
  intro site hsite name location hstmt
  obtain ⟨output, houtput, heq | hsite⟩ := mem_sites_file hsite
  · rw [hstmt] at heq
    cases heq
  obtain ⟨function, hfunction, hpair⟩ := exists_mem_of_forall₂ hfrom houtput
  have hstart : (startOf output).places = (startOf function).places := by
    rw [places_startOf, places_startOf, (sameHead_lowered hpair).parameters]
  have hmeant : Meant site.bindings (name, location) (returned? site.rest) := by
    refine careful_lowered (hchecked.each function hfunction) (suited_checked hfile hplaces
      hfunction) hpair
      site ?_ name location hstmt
    rwa [← hstart]
  have hdistinct : site.bindings.Distinct := by
    obtain ⟨after, hbody⟩ := (hallowed.each output houtput).body
    exact hbody.sites_distinct (distinct_startOf (hallowed.wellFormed output houtput)) [] site hsite
  refine ⟨hmeant.once, ?_, hmeant.kept⟩
  rcases hmeant.found with hinnermost | hfound | hreturned
  · exact .inl (lookup_of_mem_headD hdistinct hinnermost)
  · exact .inl hfound
  · have hmem : (name, location) ∈ site.bindings.flatten :=
      List.count_pos_iff.mp (hmeant.once ▸ Nat.one_pos)
    exact (lookup_or_hidden hdistinct hmem).imp_right fun hhidden => ⟨hhidden, hreturned⟩

/-- A program in which a body hides a variable and returns the one that hides it. -/
def hiddenLine : String :=
  "function f() returns String \x7b
String x = \"a\";
print(x);
if TRUE \x7b
String x = \"b\";
print(x);
return x;
\x7d
return x;
\x7d
function main() \x7b print(f()); \x7d"

/-- Whether the name of a release stands for another variable than the one that is meant, and the
name is returned next. -/
def Site.isCaptured (site : Site) : Bool :=
  match site.stmt, returned? site.rest with
  | .release name location, some (.name result) =>
    site.bindings.lookup name ≠ some (name, location) ∧ result.text = name
  | _, _ => false

theorem Site.isCaptured_iff {site : Site} : site.isCaptured = true ↔ ∃ name location result,
    site.stmt = .release name location ∧ returned? site.rest = some (.name result) ∧
      site.bindings.lookup name ≠ some (name, location) ∧ result.text = name := by
  rw [Site.isCaptured]
  constructor
  · intro h
    split at h
    · next name location result hstmt hreturned =>
      exact ⟨name, location, result, hstmt, hreturned, of_decide_eq_true h⟩
    · cases h
  · rintro ⟨name, location, result, hstmt, hreturned, hcaptured⟩
    rw [hstmt, hreturned]
    exact decide_eq_true hcaptured

theorem exists_captured_hiddenLine : ∃ program, (compile hiddenLine {}).result = .ok program ∧
    ∃ site ∈ program.sites, site.isCaptured = true := by
  have hwithin : (Lexer.ofSource hiddenLine).itemsWithin 150 = tokenize hiddenLine :=
    Lexer.itemsWithin_eq (by decide +kernel)
  have hrun : (compile hiddenLine {}).result.toOption.any (·.sites.any Site.isCaptured) = true := by
    rw [compile, Program.read, Program.tokens, ← hwithin]
    decide +kernel
  cases hresult : (compile hiddenLine {}).result with
  | error => rw [hresult] at hrun; cases hrun
  | ok program =>
    rw [hresult] at hrun
    exact ⟨program, rfl, any_eq_true.mp hrun⟩

/-- The first variable `x` of the program can be seen from its release in the inner body, but is
hidden there. -/
theorem compile_releases_hiddenLine : ∃ program, (compile hiddenLine {}).result = .ok program ∧
    ∃ site ∈ program.sites, ∃ name location, site.stmt = .release name location ∧
      site.bindings.flatten.count (name, location) = 1 ∧ site.bindings.Hidden (name, location) := by
  obtain ⟨program, hprogram, site, hsite, hcaptured⟩ := exists_captured_hiddenLine
  obtain ⟨name, location, result, hstmt, -, hlookup, -⟩ := Site.isCaptured_iff.mp hcaptured
  obtain ⟨honce, hfound, -⟩ := compile_releases rfl hprogram site hsite name location hstmt
  exact ⟨program, hprogram, site, hsite, name, location, hstmt, honce,
    (hfound.resolve_left hlookup).1⟩

/-- **The name of a release may stand for another variable**, and that one may be returned next:
whoever goes by names alone gives away what is still needed. -/
theorem compile_hiddenRelease : ∃ program, (compile hiddenLine {}).result = .ok program ∧
    ∃ site ∈ program.sites, ∃ name location result, site.stmt = .release name location ∧
      returned? site.rest = some (.name result) ∧
      site.bindings.lookup name ≠ some (name, location) ∧ result.text = name := by
  obtain ⟨program, hprogram, site, hsite, hcaptured⟩ := exists_captured_hiddenLine
  exact ⟨program, hprogram, site, hsite, Site.isCaptured_iff.mp hcaptured⟩

end FrontEnd
