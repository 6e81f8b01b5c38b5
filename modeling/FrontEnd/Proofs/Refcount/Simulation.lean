import FrontEnd.Proofs.Refcount.Hoist

/-!
# Lowered statements

The lowered form of a block does what the block does with the arguments on the heap first
(`follows_block`). Both runs keep step statement by statement: the environment of the lowered run
has the temporaries more, and the variables that lowering knows of are those of the other
environment (`Tracks`). When a block ends its function early, nothing is left to be said about the
environments.
-/

namespace FrontEnd.Execution

open Refcount Lower Machine List

/-! ### What lowering knows of the variables -/

/-- The variables that lowering knows of are those of the first environment, but for temporaries,
and the second environment has variables more. -/
structure Tracks (own : List String) (state : Lowering) (env env' : Env Data) : Prop where
  covers : Covers own state.names.taken env env'
  frames : Forall₂ (fun locals frame =>
    (locals.filter (·.name ∈ own)).map (fun v => (v.name, v.type, v.location)) =
      frame.map fun slot => (slot.name, slot.type, slot.location)) state.frames env

namespace Tracks

variable {own : List String} {state after : Lowering} {env env' : Env Data} {name : String}

section

variable (h : Tracks own state env env')
include h

/-- Lowering finds the variable that the environment has. -/
theorem lookup_eq (hname : name ∈ own) :
      (state.frames.lookup name).map (fun v => (v.type, v.location)) =
        (Env.find env name).map fun slot => (slot.type, slot.location) := by
  have hkeys : (state.frames.flatten.filter (·.name ∈ own)).map
      (fun v => (v.name, v.type, v.location)) = env.flatten.map fun slot =>
      (slot.name, slot.type, slot.location) := by
    have hframes := h.frames
    generalize state.frames = frames at hframes
    clear h
    induction hframes with
    | nil => rfl
    | cons hfirst _ ih =>
      rw [flatten_cons, filter_append, map_append, flatten_cons, map_append, hfirst, ih]
  -- a search for an own name never stops at a temporary
  have hown : state.frames.flatten.find? (·.name = name) =
      (state.frames.flatten.filter (·.name ∈ own)).find? (·.name = name) := by
    rw [find?_filter]
    congr 1
    funext v
    by_cases hv : v.name = name
    · simp [hv, hname]
    · simp [hv]
  have hfound := congrArg (fun keys => (keys.find? (·.1 = name)).map Prod.snd) hkeys
  simp only [find?_map, Option.map_map] at hfound
  rw [Frames.lookup, hown, Env.find]
  exact hfound

theorem lookup_type (hname : name ∈ own) :
    (state.frames.lookup name).map (·.type) = (Env.find env name).map (·.type) := by
  have hfound := congrArg (Option.map Prod.fst) (h.lookup_eq hname)
  rw [Option.map_map, Option.map_map] at hfound
  exact hfound

/-- More names are taken, and more variables that the program does not name are there. -/
theorem later (hlater : state.Later after) {later : Env Data}
    (hcovers : Covers own after.names.taken env later) : Tracks own after env later :=
  ⟨hcovers, hlater.frames ▸ h.frames⟩

theorem declare {v : Local} (hv : v.name ∈ own) (value : Value Data) :
    Tracks own { state with frames := state.frames.declare v } (env.declare (slotOf v value))
      (env'.declare (slotOf v value)) := by
  obtain ⟨⟨hnamed, hslots, hne, hown⟩, hframes⟩ := h
  have hname : (slotOf v value).name ∈ own := hv
  cases env' with
  | nil => exact absurd rfl hne
  | cons =>
    refine ⟨⟨by rw [Env.named_declare hname, hnamed], fun slot hslot => ?_, cons_ne_nil _ _, hown⟩,
      ?_⟩
    · rw [Env.declare, flatten_cons, cons_append, mem_cons] at hslot
      rcases hslot with rfl | hslot
      · exact hown hname
      · exact hslots slot hslot
    · cases env with
      | nil => cases hnamed
      | cons =>
        generalize hstate : state.frames = frames at hframes
        cases hframes with
        | cons hfirst hrest =>
          refine .cons ?_ hrest
          rw [filter_cons_of_pos (by simpa using hv), map_cons, map_cons, hfirst]
          rfl

theorem update (hname : name ∈ own) (value : Value Data) :
    Tracks own state (Env.update name value env) (Env.update name value env') := by
  obtain ⟨⟨hnamed, hslots, hne, hown⟩, hframes⟩ := h
  refine ⟨⟨by rw [Env.named_update hname, hnamed], fun slot hslot => ?_, fun hnil => ?_, hown⟩, ?_⟩
  · have hnames :
        (Env.update name value env').flatten.map (·.name) = env'.flatten.map (·.name) := by
      rw [map_flatten, map_flatten, Env.map_update _ fun _ _ => rfl]
    have hmem := mem_map_of_mem (f := (·.name)) hslot
    rw [hnames] at hmem
    obtain ⟨found, hfound, heq⟩ := mem_map.mp hmem
    exact heq ▸ hslots found hfound
  · have hlength := congrArg List.length hnil
    rw [Env.length_update] at hlength
    exact hne (eq_nil_of_length_eq_zero hlength)
  · have hkeys := Env.map_update (fun slot : Slot Data => (slot.name, slot.type, slot.location))
      (fun _ _ => rfl) name value env
    rw [← forall₂_map_right_iff (f := fun frame : List (Slot Data) =>
      frame.map fun slot => (slot.name, slot.type, slot.location))] at hframes ⊢
    rwa [hkeys]

theorem push : Tracks own { state with frames := [] :: state.frames } ([] :: env) ([] :: env') := by
  obtain ⟨⟨hnamed, hslots, -, hown⟩, hframes⟩ := h
  exact ⟨⟨congrArg ([] :: ·) hnamed, hslots, cons_ne_nil _ _, hown⟩, .cons rfl hframes⟩

/-- The end of a body inside of another one. -/
theorem pop (hinside : 1 < state.frames.length) :
    Tracks own { state with frames := state.frames.tail } env.tail env'.tail := by
  obtain ⟨⟨hnamed, hslots, hne, hown⟩, hframes⟩ := h
  have hlength := hframes.length_eq
  generalize hstate : state.frames = frames at hframes hinside hlength
  cases env' with
  | nil => exact absurd rfl hne
  | cons =>
    cases hframes with
    | nil => cases hnamed
    | cons hfirst hrest =>
      cases hnamed
      refine ⟨⟨rfl, fun slot hslot => hslots slot ?_, ?_, hown⟩, hrest⟩
      · rw [flatten_cons]
        exact mem_append_right _ hslot
      · rintro rfl
        rw [hlength] at hinside
        simp at hinside

/-- Variables that the program does not name are of no interest. -/
theorem declareAll {locals : List Local} (hlocals : ∀ v ∈ locals, v.name ∉ own) :
    Tracks own { state with frames := locals.foldl Frames.declare state.frames } env env' := by
  refine ⟨h.covers, ?_⟩
  have hframes := h.frames
  change Forall₂ _ (locals.foldl Frames.declare state.frames) env
  generalize state.frames = frames at hframes
  clear h
  induction locals generalizing frames with
  | nil => exact hframes
  | cons v locals ih =>
    rw [forall_mem_cons] at hlocals
    refine ih hlocals.2 _ ?_
    cases hframes with
    | nil => exact .nil
    | cons hfirst hrest =>
      refine .cons ?_ hrest
      rwa [filter_cons_of_neg (by simpa using hlocals.1)]

end

end Tracks

/-! ### What is of no interest without counting -/

/-- Whether a statement does nothing but count. -/
def isCounting : Stmt → Bool
  | .retain .. | .release .. => true
  | _ => false

section Lowered

variable {setting : Setting} {source lowered : Program} {call call' : Machine.Caller Data Unit}
  {types : ReturnTypes} {own : List String} {env env' : Env Data} {state : Lowering}
  {evaluate : Expr → Run Data Unit (Value Data)} {block counting : List Stmt}
  {expression value : Expr} {known : List String} {action : Run Data Unit (Value Data)}
  {target : Name}

theorem execAll_of_counting (h : ∀ stmt ∈ block, isCounting stmt = true) :
    (plain setting lowered).execAll evaluate block = pure none := by
  induction block with
  | nil => rfl
  | cons stmt block ih =>
    rw [forall_mem_cons] at h
    have hstmt : (plain setting lowered).exec evaluate stmt = pure none := by
      cases stmt with
      | retain => rfl
      | release => rfl
      | expression | declaration | assignment | conditional | result | function => cases h.1
    rw [execAll, hstmt, pure_bind]
    exact ih h.2

/-- To count at the end of a block changes nothing. -/
theorem execAll_append_counting (h : ∀ stmt ∈ counting, isCounting stmt = true) :
    (plain setting lowered).execAll evaluate (block ++ counting) =
      (plain setting lowered).execAll evaluate block := by
  rw [execAll_append]
  conv => rhs; rw [← bind_pure ((plain setting lowered).execAll evaluate block)]
  congr 1
  funext result
  cases result with
  | some => rfl
  | none => exact execAll_of_counting h

/-- So does counting before it. -/
theorem execAll_counting_append (h : ∀ stmt ∈ counting, isCounting stmt = true) :
    (plain setting lowered).execAll evaluate (counting ++ block) =
      (plain setting lowered).execAll evaluate block := by
  rw [execAll_append, execAll_of_counting h, pure_bind]

theorem counting_releases (locals : List Local) :
    ∀ stmt ∈ releases locals, isCounting stmt = true := by
  intro stmt hstmt
  obtain ⟨v, -, rfl⟩ := mem_map.mp hstmt
  rfl

theorem counting_releaseAll (frames : Frames) (keep : Option String) :
    ∀ stmt ∈ frames.releaseAll keep, isCounting stmt = true := by
  cases keep <;> exact counting_releases _

theorem counting_releaseTemps (temps : List Temp) :
    ∀ stmt ∈ releaseTemps temps, isCounting stmt = true := by
  intro stmt hstmt
  obtain ⟨temp, -, rfl⟩ := mem_map.mp hstmt
  rfl

/-! ### Statements -/

/-- Two runs end a part in the same way, and go on from environments that are tracked if they go
on. -/
def Follows (own : List String) (after : Lowering) (result result' : Option (Value Data))
    (found found' : State Data Unit) : Prop :=
  result' = result ∧ found'.world = found.world ∧
    (result = none → Tracks own after found.env found'.env)

/-- From environments that lowering keeps track of on, a program does what a lowered part of another
one does. -/
abbrev Followed (setting : Setting) (lowered : Program) (call' : Machine.Caller Data Unit)
    (own : List String) (state : Lowering) (action : Run Data Unit (Option (Value Data)))
    (output : List Stmt × Lowering) : Prop :=
  Relates (· = .stuck) (Beside (Tracks own state)) action
    ((plain setting lowered).execAll ((plain setting lowered).eval call') output.1)
    (Follows own output.2)

/-- What the statements of two programs need of what is around them: names mean the same, calls do
the same, and they give values of the types that are known for them. -/
structure Linked (setting : Setting) (source lowered : Program)
    (call call' : Machine.Caller Data Unit) (types : ReturnTypes) : Prop where
  global : ∀ name, (plain setting lowered).global? name = (plain setting source).global? name
  calls : CallersAgree (· = .stuck) call call'
  fits : CallsFit types call

/-- What is evaluated in front of a statement, and the statement behind it. -/
theorem relates_hoist {α : Type}
    {R : α → Option (Value Data) → State Data Unit → State Data Unit → Prop}
    (hlinked : Linked setting source lowered call call' types) (hnames : expression.names ⊆ own)
    (htypes : state.returnTypes = types) (htracks : Tracks own state env env')
    {next : Value Data → Run Data Unit α} {core : List Stmt}
    (hcore : ∀ action later, (∀ type, valueType types expression = some type →
        Holds (fun _ => True) action (fun value _ => Fits value type) fun _ => True) →
      Tracks own (hoist expression state).2 env later →
      Answers setting lowered call' (hoist expression state).2.names.taken env later action
        (hoist expression state).1.1 →
        Relates (· = .stuck) (Beside (Fixed env later)) (action >>= next)
          ((plain setting lowered).execAll ((plain setting lowered).eval call') core) R) :
    Relates (· = .stuck) (Beside (Fixed env env'))
      ((plain setting source).staged (heapFirst types) call expression >>= next)
      ((plain setting lowered).execAll ((plain setting lowered).eval call')
        ((hoist expression state).1.2.flatMap Temp.setup ++ core)) R := by
  -- the type inference of the lowering is right about what the settled expression gives
  have hfact : Holds (fun _ => True) ((plain setting source).settle (heapFirst types)
      call expression) (fun action _ => ∀ type, valueType types expression = some type →
        Holds (fun _ => True) action (fun value _ => Fits value type) fun _ => True)
      fun _ => True := by
    cases htype : valueType types expression with
    | none => exact (holds_true _).weaken (fun _ => id) fun _ _ _ type h => by cases h
    | some =>
      refine (holds_settle_fits hlinked.fits _ _ htype).weaken
        (fun _ => id) fun _ _ h type' htype' => ?_
      cases htype'
      exact h
  have hfirst := (prepares_hoist hlinked.global hlinked.calls hlinked.fits expression hnames htypes
    htracks.covers).and_holds hfact
  rw [staged, bind_assoc, execAll_append]
  refine Relates.bind hfirst fun action result found found' hstate => ?_
  obtain ⟨hfits, rfl, ⟨henv, hready⟩, hworld⟩ := hstate
  exact hcore action found'.env hfits (htracks.later (later_hoist expression) hready.covers)
    (forall₂_cons.mp hready.answers).1 found found' ⟨⟨henv, rfl⟩, hworld⟩

theorem follows_expression (hlinked : Linked setting source lowered call call' types)
    (hnames : value.names ⊆ own) (htypes : state.returnTypes = types) (location : Location) :
    Followed setting lowered call' own state
      ((plain setting source).exec ((plain setting source).staged (heapFirst types) call)
        (.expression value location))
      (Lower.expression value location state) := by
  refine relates_of_fixed fun env env' htracks => ?_
  rw [exec, expression_eq, htypes]
  split
  -- a call for a heap value: its result is held by a temporary and released
  · next type _ htype =>
    have htype := (Option.filter_eq_some_iff.mp htype).1
    rw [execAll_append_counting (counting_releaseTemps _)]
    refine relates_hoist hlinked hnames htypes htracks fun action later hfits htracks hanswers => ?_
    rw [execAll_append_counting (by simp [Temp.release, Local.release, isCounting]),
      ← bind_pure ((plain setting lowered).execAll _ _)]
    have hsetup := prepares_makeTemp htracks.covers hanswers (hfits type htype)
    rw [Prepares, flatMap_singleton] at hsetup
    refine Relates.bind hsetup fun _ _ => .pure fun _ _ hstate => ?_
    obtain ⟨rfl, ⟨rfl, hready⟩, hworld⟩ := hstate
    exact ⟨rfl, hworld, fun _ => htracks.later (later_makeTemp _ type) hready.covers⟩
  · rw [execAll_append_counting (counting_releaseTemps _)]
    refine relates_hoist hlinked hnames htypes htracks fun action later hfits htracks hanswers => ?_
    rw [execAll_singleton, exec]
    refine Relates.bind (hanswers later fun _ _ => rfl) fun _ _ => .pure fun _ _ hstate => ?_
    obtain ⟨rfl, ⟨rfl, rfl⟩, hworld⟩ := hstate
    exact ⟨rfl, hworld, fun _ => htracks⟩

/-- An action that lets only values of a type through. -/
def guarded (setting : Setting) (source : Program) (action : Run Data Unit (Value Data))
    (type : String) : Run Data Unit (Value Data) := do
  let value ← action
  (plain setting source).expect value type
  return value

theorem holds_guarded (action : Run Data Unit (Value Data)) (type : String) :
    Holds (fun _ => True) (guarded setting source action type)
      (fun value _ => Fits value type) fun _ => True := by
  refine Holds.bind (holds_true action) fun value => ?_
  by_cases hfits : Fits value type
  · rw [expect_plain hfits, pure_bind]
    exact .pure fun _ _ => hfits
  · rw [expect_plain_eq_throw hfits]
    exact fun _ _ => trivial

section

variable (h : Answers setting lowered call' known env env' action expression)
include h

/-- Where a value that does not fit has no meaning, an expression does what it did. -/
theorem Answers.guarded (type : String) :
    Answers setting lowered call' known env env' (guarded setting source action
      type) expression := by
  intro later hlater
  rw [← bind_pure ((plain setting lowered).eval call' expression)]
  refine Relates.step (h later hlater) fun value => ?_
  by_cases hfits : Fits value type
  · rw [expect_plain hfits, pure_bind]
    exact matches_done
  · rw [expect_plain_eq_throw hfits]
    exact fun _ _ _ => .inl rfl

theorem Answers.holds_env :
    Holds (·.env = env) action (fun _ found => found.env = env) fun _ => True := by
  intro found hfound
  have hafter := h env' (fun _ _ => rfl) found ⟨env', (), found.world⟩ ⟨⟨hfound, rfl⟩, rfl⟩
  cases haction : action found with
  | error => trivial
  | ok =>
    rw [haction] at hafter
    obtain ⟨_, _, -, -, ⟨henv, -⟩, -⟩ := hafter
    exact henv

/-- The variable of an assignment looks at its new value first. -/
theorem bind_assign_eq {target : String}
    {slot : Slot Data} (hslot : Env.find env target = some slot) {found : State Data Unit}
    (hfound : found.env = env) :
    (action >>= fun value => do
      (plain setting source).assign target value
      return (none : Option (Value Data))) found =
    (guarded setting source action slot.type >>= fun value => do
      modifyEnv (·.update target value)
      return none) found := by
  rw [guarded, bind_assoc]
  refine bind_congr_of_holds h.holds_env (fun value after hafter => ?_) hfound
  -- the slot is still there after the action, which leaves the environment as it was
  have hget : (plain setting source).assign target value after =
      ((plain setting source).expect value slot.type >>= fun _ =>
        modifyEnv (·.update target value)) after := by
    simp only [assign, bind_get, hafter, hslot]
  by_cases hfits : Fits value slot.type
  · rw [expect_plain hfits, pure_bind] at hget
    simp only [expect_plain hfits, pure_bind]
    simp only [bind, EStateM.bind, hget]
  · rw [expect_plain_eq_throw hfits] at hget
    simp only [expect_plain_eq_throw hfits]
    simp only [bind, EStateM.bind, hget]
    rfl

end

section

variable (htarget : target.text ∈ own) (htracks : Tracks own state env env')
  (hanswers : Answers setting lowered call' state.names.taken env env' action value)
include htarget htracks hanswers

/-- A value gets to a variable without a detour. -/
theorem follows_assign (location : Location) :
    Relates (· = .stuck) (Beside (Fixed env env')) (action >>= fun value => do
        (plain setting source).assign target.text value
        return none)
      ((plain setting lowered).execAll ((plain setting lowered).eval call')
        [.assignment target value location]) (Follows own state) := by
  rw [execAll_singleton, exec]
  refine Relates.step (hanswers env' fun _ _ => rfl) fun value => ?_
  have hassign :
      Matches (· = .stuck) (Fixed env env') ((plain setting source).assign target.text value)
        ((plain setting lowered).assign target.text value) (Tracks own state) := by
    refine matches_assign ?_ ?_
    · rintro _ _ ⟨rfl, rfl⟩
      exact htracks.covers.find htarget
    · rintro _ _ ⟨rfl, rfl⟩
      exact htracks.update htarget value
  refine Relates.step hassign fun _ => .pure fun _ _ hstate => ?_
  exact ⟨rfl, hstate.2, fun _ => hstate.1⟩

/-- A value gets to a variable by way of a temporary. -/
theorem follows_assign_makeTemp {v : Local} (hlookup : state.frames.lookup target.text = some v)
    (location : Location) :
    Relates (· = .stuck) (Beside (Fixed env env')) (action >>= fun value => do
        (plain setting source).assign target.text value
        return none)
      ((plain setting lowered).execAll ((plain setting lowered).eval call')
        ((makeTemp value v.type state).1.setup ++ [.release target.text v.location,
          .assignment target (makeTemp value v.type state).1.use location]))
      (Follows own (makeTemp value v.type state).2) := by
  obtain ⟨slot, hslot, htype⟩ :
      ∃ slot, Env.find env target.text = some slot ∧ slot.type = v.type := by
    have hfound := htracks.lookup_type htarget
    rw [hlookup] at hfound
    exact Option.map_eq_some_iff.mp hfound.symm
  -- the temporary gets the type of the variable, so the source has to check it first as well
  have hfits : Holds (fun _ => True) (guarded setting source action v.type)
      (fun value _ => Fits value v.type) fun _ => True := holds_guarded action v.type
  have hsetup := (prepares_makeTemp htracks.covers (hanswers.guarded v.type) hfits).and_holds hfits
  rw [flatMap_singleton] at hsetup
  have hguarded : Relates (· = .stuck) (Beside (Fixed env env'))
      (guarded setting source action v.type >>= fun value => do
        modifyEnv (·.update target.text value)
        return none)
      ((plain setting lowered).execAll ((plain setting lowered).eval call')
        ((makeTemp value v.type state).1.setup ++ [.release target.text v.location,
          .assignment target (makeTemp value v.type state).1.use location]))
      (Follows own (makeTemp value v.type state).2) := by
    rw [execAll_append]
    refine Relates.bind hsetup fun value' result found found' hstate => ?_
    obtain ⟨hfits, rfl, ⟨rfl, hready⟩, hworld⟩ := hstate
    have htracks' := htracks.later (later_makeTemp value v.type) hready.covers
    obtain ⟨given, after', heval, rfl, ⟨-, henv'⟩, hworld'⟩ :=
      (forall₂_cons.mp hready.answers).1 found'.env (fun _ _ => rfl) found found'
        ⟨⟨rfl, rfl⟩, hworld⟩
    have hfind : Env.find after'.env target.text = some slot := by
      rw [henv', htracks'.covers.find htarget, hslot]
    have hcore : (plain setting lowered).execAll ((plain setting lowered).eval call')
        ([.release target.text v.location] ++
          [.assignment target (makeTemp value v.type state).1.use location]) found' =
        .ok none { after' with env := after'.env.update target.text given } := by
      rw [execAll_counting_append (by simp [isCounting]), execAll_singleton, exec,
        bind_of_ok heval, bind_of_ok (assign_plain hfind (htype ▸ hfits))]
      rfl
    refine ⟨none, _, hcore, rfl, hworld', fun _ => ?_⟩
    rw [henv']
    exact htracks'.update htarget given
  rintro found found' ⟨⟨rfl, rfl⟩, hworld⟩
  rw [bind_assign_eq hanswers hslot rfl, htype]
  exact hguarded found found' ⟨⟨rfl, rfl⟩, hworld⟩

end

theorem follows_assignment (hlinked : Linked setting source lowered call call' types) (fresh : Bool)
    (htarget : target.text ∈ own) (hnames : value.names ⊆ own) (htypes : state.returnTypes = types)
    (location : Location) : Followed setting lowered call' own state
      ((plain setting source).exec ((plain setting source).staged (heapFirst types) call)
        (.assignment target value location)) (Lower.assignment fresh target value
          location state) := by
  refine relates_of_fixed fun env env' htracks => ?_
  rw [exec, assignment_eq]
  split
  -- not on the heap: nothing is counted
  · rw [execAll_append_counting (counting_releaseTemps _)]
    refine relates_hoist hlinked hnames htypes htracks fun action later _ htracks hanswers => ?_
    exact follows_assign htarget htracks hanswers location
  · rw [execAll_append_counting (counting_releaseTemps _)]
    refine relates_hoist hlinked hnames htypes htracks fun action later _ htracks hanswers => ?_
    split
    -- a first value that is a name is retained after the assignment
    · change Relates _ _ _ ((plain setting lowered).execAll _ ([_] ++ [_])) _
      rw [execAll_append_counting (by simp [isCounting])]
      exact follows_assign htarget htracks hanswers location
    · exact follows_assign htarget htracks hanswers location
  -- a later value waits in a temporary while the old one is released
  · next v hlookup =>
    rw [execAll_append_counting (counting_releaseTemps _)]
    refine relates_hoist hlinked hnames htypes htracks fun action later _ htracks hanswers => ?_
    refine follows_assign_makeTemp htarget htracks hanswers ?_ location
    rw [(later_hoist value).frames]
    exact (Option.filter_eq_some_iff.mp hlookup).1

/-- A function ends with the value of an expression. -/
theorem follows_return (hanswers : Answers setting lowered call' known env env' action value)
    {after : Lowering} (location : Location) :
    Relates (· = .stuck) (Beside (Fixed env env')) (action >>= fun value => pure (some value))
      ((plain setting lowered).execAll ((plain setting lowered).eval call')
        [.result value location])
      (Follows own after) := by
  rw [execAll_singleton, exec]
  refine Relates.step (hanswers env' fun _ _ => rfl) fun value => .pure fun _ _ hstate => ?_
  exact ⟨rfl, hstate.2, fun h => by cases h⟩

theorem follows_result (hlinked : Linked setting source lowered call call' types)
    (hnames : value.names ⊆ own) (htypes : state.returnTypes = types) (location : Location) :
    Followed setting lowered call' own state
      ((plain setting source).exec ((plain setting source).staged (heapFirst types) call)
        (.result value location))
      (Lower.result value location state) := by
  refine relates_of_fixed fun env env' htracks => ?_
  rw [exec]
  rcases value.name_or_ne with ⟨name, rfl⟩ | hname
  -- a name is not hoisted: around the return there is only counting
  · have hown : name.text ∈ own := hnames (by simp [Expr.names])
    rw [Lower.result, resultName_eq, append_assoc, execAll_counting_append,
      execAll_counting_append (counting_releaseAll _ _), staged, Machine.settle, pure_bind]
    · exact follows_return (answers_name (htracks.covers.own hown) (hlinked.global _)
        (htracks.covers.find hown)) location
    · split
      · simp [isCounting]
      · simp
  · rw [result_of_ne_name hname, resultValue_eq hname, htypes]
    split
    · next type htype =>
      simp only [append_assoc]
      refine relates_hoist hlinked hnames htypes htracks fun action later hfits htracks hanswers =>
        ?_
      have hsetup := prepares_makeTemp htracks.covers hanswers (hfits type htype)
      rw [Prepares, flatMap_singleton] at hsetup
      rw [execAll_append]
      refine Relates.bind hsetup fun value' result found found' hstate => ?_
      obtain ⟨rfl, ⟨rfl, hready⟩, hworld⟩ := hstate
      simp only [execAll_counting_append (counting_releaseTemps _),
        execAll_counting_append (counting_releaseAll _ _)]
      exact follows_return (forall₂_cons.mp hready.answers).1 location found found'
        ⟨⟨rfl, rfl⟩, hworld⟩
    · simp only [append_assoc, nil_append]
      refine relates_hoist hlinked hnames htypes htracks fun action later hfits htracks hanswers =>
        ?_
      rw [execAll_counting_append (counting_releaseTemps _),
        execAll_counting_append (counting_releaseAll _ _)]
      exact follows_return hanswers location

/-- The temporaries of a condition are variables of the body around it, and a body behind it that
ends releases its own variables only. -/
theorem follows_conditional (hlinked : Linked setting source lowered call call' types)
    {previous : Option Stmt} {condition : Expr} {body : List Stmt}
    (hcondition : condition.names ⊆ own) (htypes : state.returnTypes = types)
    (hframes : state.frames ≠ []) (location : Location)
    (hblock : Followed setting lowered call' own (opened condition state)
      ((plain setting source).execAll ((plain setting source).staged (heapFirst types) call) body)
      (Lower.block none body (opened condition state))) : Followed setting lowered call' own state
      ((plain setting source).exec ((plain setting source).staged (heapFirst types) call)
        (.conditional condition body location))
        (statement previous (.conditional condition body location) state) := by
  refine relates_of_fixed fun env env' htracks => ?_
  rw [exec, statement_conditional_eq]
  refine relates_hoist hlinked hcondition htypes htracks fun action later _ htracks' hanswers => ?_
  rw [execAll_singleton, exec]
  refine Relates.step (hanswers later fun _ _ => rfl) fun value => ?_
  refine Relates.step (matches_branch value) fun taken => ?_
  have hfree : ∀ v ∈ (hoist condition state).1.2.map Temp.place, v.name ∉ own := by
    intro v hv hown
    obtain ⟨temp, htemp, rfl⟩ := mem_map.mp hv
    exact (newTemps_hoist condition _).free temp htemp (htracks.covers.own hown)
  -- after the condition, the temporaries belong to the frame around the block
  have houtside := htracks'.declareAll hfree
  have hgrown := grown_block none body (opened condition state)
  cases taken with
  | false =>
    refine .pure fun found found' hstate => ?_
    obtain ⟨⟨rfl, rfl⟩, hworld⟩ := hstate
    refine ⟨rfl, hworld, fun _ => ⟨houtside.covers.mono hgrown.taken, ?_⟩⟩
    change Forall₂ _ (Lower.block none body (opened condition state)).2.frames.tail _
    rw [hgrown.tail]
    exact houtside.frames
  | true =>
    have hinside : 1 < (Lower.block none body (opened condition state)).2.frames.length := by
      rw [hgrown.length, frames_opened, length_cons, Frames.length_declareAll]
      have := length_pos_iff.mpr hframes
      omega
    -- the releases at the end of the block only count
    have hreleases : (plain setting lowered).execAll ((plain setting lowered).eval call')
        (if endsWithResult body then (Lower.block none body (opened condition state)).1
          else (Lower.block none body (opened condition state)).1 ++
            (Lower.block none body (opened condition state)).2.frames.releaseInnermost) =
        (plain setting lowered).execAll ((plain setting lowered).eval call')
          (Lower.block none body (opened condition state)).1 := by
      split
      · rfl
      · exact execAll_append_counting (counting_releases _)
    have hpush : Matches (· = .stuck) (Fixed env later) (modifyEnv ([] :: ·))
        (modifyEnv ([] :: ·)) (Tracks own (opened condition state)) := by
      refine matches_modifyEnv ?_
      rintro _ _ ⟨rfl, rfl⟩
      exact houtside.push
    simp only [if_true, hreleases]
    unfold inBlock
    refine Relates.step hpush fun _ => ?_
    refine Relates.bind hblock fun result result' found found' hfollows => ?_
    obtain ⟨rfl, hworld, hinner⟩ := hfollows
    exact ⟨_, _, rfl, rfl, hworld, fun h => (hinner h).pop hinside⟩

mutual

theorem follows_statement (hlinked : Linked setting source lowered call call' types)
    (previous : Option Stmt) : ∀ (stmt : Stmt) {state : Lowering}, stmt.names ⊆ own →
    state.returnTypes = types → state.frames ≠ [] →
    Followed setting lowered call' own state
      ((plain setting source).exec ((plain setting source).staged (heapFirst types) call) stmt)
      (statement previous stmt state)
  | .declaration type name location, state, hnames, htypes, hframes => by
    have hown : name ∈ own := hnames (by simp [Stmt.names])
    rw [statement, exec]
    change Relates _ _ _ ((plain setting lowered).execAll _ [.declaration type name location])
      (Follows own { state with frames := state.frames.declare ⟨name, type.text, location, true⟩ })
    rw [execAll_singleton, exec]
    have hdeclare : Matches (· = .stuck) (Tracks own state)
        (modifyEnv (·.declare ⟨name, type.text, location, .unset⟩))
        (modifyEnv (·.declare ⟨name, type.text, location, .unset⟩))
        (Tracks own { state with frames := state.frames.declare ⟨name, type.text,
          location, true⟩ }) :=
      matches_modifyEnv fun _ _ htracks =>
        htracks.declare (show (Local.mk name type.text location true).name ∈ own from hown) .unset
    refine Relates.step hdeclare fun _ => .pure fun _ _ hstate => ?_
    exact ⟨rfl, hstate.2, fun _ => hstate.1⟩
  | .assignment target value location, state, hnames, htypes, hframes => by
    rw [statement]
    exact follows_assignment hlinked _ (hnames (by simp [Stmt.names]))
      (fun name hname => hnames (by simp [Stmt.names, hname])) htypes location
  | .conditional condition body location, state, hnames, htypes, hframes => by
    have htypes' : (opened condition state).returnTypes = types :=
      htypes ▸ (later_hoist condition).returnTypes
    exact follows_conditional hlinked
      (fun name hname => hnames (by simp [Stmt.names, hname])) htypes
      hframes location (follows_block hlinked none body
        (fun name hname => hnames (by simp [Stmt.names, hname])) htypes' (cons_ne_nil _ _))
  | .result value location, state, hnames, htypes, hframes => by
    rw [statement]
    exact follows_result hlinked (fun name hname => hnames (by simp [Stmt.names, hname]))
      htypes location
  | .expression value location, state, hnames, htypes, hframes => by
    rw [statement]
    exact follows_expression hlinked (fun name hname => hnames (by simp [Stmt.names, hname]))
      htypes location
  | .function .., state, hnames, htypes, hframes => by
    rw [exec]
    exact fun _ _ _ => .inl rfl
  | .retain name location, state, hnames, htypes, hframes | .release name location, state, hnames,
      htypes, hframes => by
    rw [statement]
    · exact .pure fun _ _ hstate => ⟨rfl, hstate.2, fun _ => hstate.1⟩
    all_goals simp

/-- **The lowered form of a block does what the block does** with the arguments on the heap
first. -/
theorem follows_block (hlinked : Linked setting source lowered call call' types)
    (previous : Option Stmt) : ∀ (block : List Stmt) {state : Lowering},
    Stmt.namesOfAll block ⊆ own → state.returnTypes = types → state.frames ≠ [] →
    Followed setting lowered call' own state
      ((plain setting source).execAll ((plain setting source).staged (heapFirst types) call) block)
      (Lower.block previous block state)
  | [], state, hnames, htypes, hframes => by
    rw [Lower.block]
    exact .pure fun _ _ hstate => ⟨rfl, hstate.2, fun _ => hstate.1⟩
  | stmt :: block, state, hnames, htypes, hframes => by
    have hgrown := grown_statement previous stmt state
    have hstmt : stmt.names ⊆ own := fun name hname => hnames (by simp [Stmt.namesOfAll, hname])
    have hrest : Stmt.namesOfAll block ⊆ own :=
      fun name hname => hnames (by simp [Stmt.namesOfAll, hname])
    rw [Followed, block_cons_eq, execAll, execAll_append]
    refine Relates.bind (follows_statement hlinked previous stmt hstmt htypes hframes)
      fun result result' found found' hfollows => ?_
    obtain ⟨rfl, hworld, htracks⟩ := hfollows
    cases result' with
    | some => exact ⟨_, _, rfl, rfl, hworld, fun h => by cases h⟩
    | none =>
      refine follows_block hlinked (some stmt) block hrest
        (hgrown.returnTypes.trans htypes) ?_ found
        found' ⟨htracks rfl, hworld⟩
      rw [← length_pos_iff, hgrown.length, length_pos_iff]
      exact hframes

end

end Lowered

end FrontEnd.Execution
