import FrontEnd.Proofs.Refcount.Layout
import FrontEnd.Proofs.Tree.Places

/-!
# What lowering relies on

Lowering takes some things for granted that are not true of all trees, but of those that come from a
text and were checked: expressions by themselves are calls, what is returned has a type, and
references are not counted already (`tidy`); no variable is declared twice at one place; and a
parameter that gets a new value has a reference of its own. `Fit` puts this together for a body and
the variables that are known in front of it.
-/

namespace FrontEnd.Refcount

open List Lower

mutual

/-- Whether a statement is one that lowering knows how to deal with. -/
def tidy (types : ReturnTypes) : Stmt → Bool
  | .expression value _ => value.isCall
  | .result (.name _) _ => true
  | .result value _ => (valueType types value).isSome
  | .conditional _ body _ => tidyAll types body
  | .retain .. | .release .. => false
  | .declaration .. | .assignment .. | .function .. => true

/-- The same for all statements of a body. -/
def tidyAll (types : ReturnTypes) : List Stmt → Bool
  | [] => true
  | stmt :: block => tidy types stmt && tidyAll types block

end

mutual

/-- What a statement declares, it names. -/
theorem name_mem_names_of_place {place : String × Location} : ∀ {stmt : Stmt},
    place ∈ stmt.places → place.1 ∈ stmt.names
  | .declaration type name location, h => by
    rw [Stmt.places, mem_singleton] at h
    simp [h, Stmt.names]
  | .conditional condition body location, h => by
    rw [Stmt.places] at h
    rw [Stmt.names]
    exact mem_append_right _ (name_mem_namesOfAll_of_place h)
  | .expression .., h | .assignment .., h | .result .., h | .function .., h | .retain .., h
  | .release .., h => by cases h

theorem name_mem_namesOfAll_of_place {place : String × Location} : ∀ {block : List Stmt},
    place ∈ Stmt.placesOfAll block → place.1 ∈ Stmt.namesOfAll block
  | [], h => by cases h
  | stmt :: block, h => by
    rw [Stmt.placesOfAll, mem_append] at h
    rw [Stmt.namesOfAll, mem_append]
    exact h.imp name_mem_names_of_place name_mem_namesOfAll_of_place

end

/-- A body that can be lowered where the variables in `frames` are known. -/
structure Fit (types : ReturnTypes) (own : List String) (frames : Frames)
    (block : List Stmt) : Prop where
  inside : frames ≠ []
  names : Stmt.namesOfAll block ⊆ own
  tidy : tidyAll types block = true
  distinct : (Stmt.placesOfAll block).Nodup
  new : ∀ place ∈ Stmt.placesOfAll block, place ∉ frames.flatten.map Local.placed
  /-- Who has only borrowed its object gets no other one. -/
  borrowed : ∀ v ∈ frames.flatten, v.owned = false → isHeap v.type = true →
    v.name ∉ assignedNamesOfAll block

namespace Fit

variable {types : ReturnTypes} {own : List String} {frames : Frames} {stmt : Stmt}
  {block : List Stmt} {v : Local} {value : Expr} {location : Location}

theorem head (h : Fit types own frames (stmt :: block)) : Fit types own frames [stmt] := by
  obtain ⟨hinside, hnames, htidy, hdistinct, hnew, hborrowed⟩ := h
  simp only [Stmt.namesOfAll, append_subset, tidyAll, Bool.and_eq_true, Stmt.placesOfAll,
    nodup_append, mem_append, assignedNamesOfAll, not_or] at *
  exact ⟨hinside, by simpa [Stmt.namesOfAll] using hnames.1, by simpa [tidyAll] using htidy.1,
    by simpa [Stmt.placesOfAll] using hdistinct.1,
    fun place hplace => hnew place (.inl (by simpa [Stmt.placesOfAll] using hplace)),
    fun v hv howned hheap => by
      simpa [assignedNamesOfAll] using (hborrowed v hv howned hheap).1⟩

theorem tail (h : Fit types own frames (stmt :: block)) : Fit types own frames block := by
  obtain ⟨hinside, hnames, htidy, hdistinct, hnew, hborrowed⟩ := h
  rw [Stmt.namesOfAll, append_subset] at hnames
  rw [tidyAll, Bool.and_eq_true] at htidy
  rw [Stmt.placesOfAll] at hdistinct hnew
  rw [assignedNamesOfAll] at hborrowed
  exact ⟨hinside, hnames.2, htidy.2, (nodup_append.mp hdistinct).2.1,
    fun place hplace => hnew place (mem_append_right _ hplace),
    fun v hv howned hheap hmem => hborrowed v hv howned hheap (mem_append_right _ hmem)⟩

/-- More variables do no harm, if they are not declared again and have references of their own. -/
theorem declareAll (h : Fit types own frames block) {locals : List Local}
    (howned : ∀ v ∈ locals, v.owned = true)
    (hnew : ∀ v ∈ locals, v.placed ∉ Stmt.placesOfAll block) :
    Fit types own (locals.foldl Frames.declare frames) block := by
  have hflatten := Frames.flatten_declareAll h.inside locals
  refine ⟨Frames.declareAll_ne_nil h.inside locals, h.names, h.tidy, h.distinct,
    fun place hplace hmem => ?_, fun v hv hborrowed hheap => ?_⟩
  · rw [hflatten, map_append, mem_append] at hmem
    rcases hmem with hmem | hmem
    · obtain ⟨v, hv, rfl⟩ := mem_map.mp hmem
      exact hnew v (mem_reverse.mp hv) hplace
    · exact h.new place hplace hmem
  · rw [hflatten, mem_append, mem_reverse] at hv
    rcases hv with hv | hv
    · rw [howned v hv] at hborrowed
      cases hborrowed
    · exact h.borrowed v hv hborrowed hheap

/-- What is named by nobody is declared by nobody. -/
theorem placed_not_mem (h : Fit types own frames block) (hv : v.name ∉ own) :
    v.placed ∉ Stmt.placesOfAll block :=
  fun hplace => hv (h.names (name_mem_namesOfAll_of_place hplace))

/-- A variable on the heap that gets a value has a reference of its own. -/
theorem owned {target : Name} (h : Fit types own frames [.assignment target value location])
    (hv : frames.lookup target.text = some v) (hheap : isHeap v.type = true) : v.owned = true := by
  obtain ⟨hmem, hname⟩ := Frames.mem_of_lookup hv
  cases howned : v.owned with
  | true => rfl
  | false =>
    refine absurd ?_ (h.borrowed v hmem howned hheap)
    simp [assignedNamesOfAll, assignedNames, hname]

theorem tidy_head (h : Fit types own frames [stmt]) : Refcount.tidy types stmt = true := by
  have htidy := h.tidy
  rw [tidyAll, Bool.and_eq_true] at htidy
  exact htidy.1

/-- What is returned and is no variable has a type. -/
theorem typed (h : Fit types own frames [.result value location])
    (hname : ∀ name, value ≠ .name name) :
    (valueType types value).isSome = true := by
  have htidy := h.tidy_head
  cases value with
  | name name => exact absurd rfl (hname name)
  | integer | string | call => exact htidy

/-- The body behind a condition. -/
theorem body {condition : Expr} (h : Fit types own frames [.conditional condition block location]) :
    Fit types own ([] :: frames) block := by
  obtain ⟨hinside, hnames, htidy, hdistinct, hnew, hborrowed⟩ := h
  simp only [Stmt.namesOfAll, Stmt.names, append_nil, append_subset] at hnames
  simp only [tidyAll, Refcount.tidy, Bool.and_true] at htidy
  simp only [Stmt.placesOfAll, Stmt.places, append_nil] at hdistinct hnew
  simp only [assignedNamesOfAll, assignedNames, append_nil] at hborrowed
  exact ⟨cons_ne_nil _ _, hnames.2, htidy, hdistinct, hnew, hborrowed⟩

end Fit

/-! ### From one statement to the next -/

/-- The variables at hand when the temporaries of an expression have been made. -/
def Lower.hoistedFrames (value : Expr) (state : Lowering) : Frames :=
  ((hoist value state).1.2.map Temp.place).foldl Frames.declare state.frames

namespace Lower

variable {own : List String} {state : Lowering}

/-- The temporaries of an expression have references of their own and names that nobody knows. -/
theorem mem_places_hoist {value : Expr} (hown : own ⊆ state.names.taken) {v : Local}
    (hv : v ∈ (hoist value state).1.2.map Temp.place) : v.isCounted = true ∧ v.name ∉ own := by
  obtain ⟨temp, htemp, rfl⟩ := mem_map.mp hv
  have hnew := newTemps_hoist value state
  exact ⟨hnew.counted temp htemp, fun hmem => hnew.free temp htemp (hown hmem)⟩

/-- Behind a body, the variables of the bodies around it are what they were in front of it. -/
theorem frames_block_opened (condition : Expr) (body : List Stmt) :
    ∃ top, (block none body (opened condition state)).2.frames =
      top :: hoistedFrames condition state := by
  have hgrown := grown_block none body (opened condition state)
  have htail := hgrown.tail
  have hlength := hgrown.length
  rw [frames_opened] at htail hlength
  cases hframes : (block none body (opened condition state)).2.frames with
  | nil =>
    rw [hframes] at hlength
    cases hlength
  | cons top =>
    rw [hframes] at htail
    exact ⟨top, congrArg _ htail⟩

/-- What a statement adds to the variables of its body: those that it declares, and temporaries,
whose names nobody knows. -/
theorem frames_statement (previous : Option Stmt) (stmt : Stmt) (hown : own ⊆ state.names.taken) :
    ∃ locals : List Local, (statement previous stmt state).2.frames =
      locals.foldl Frames.declare state.frames ∧
      ∀ v ∈ locals, v.owned = true ∧ (v.placed ∈ stmt.places ∨ v.name ∉ own) := by
  cases stmt with
  | declaration type name location =>
    refine ⟨[{ name := name, type := type.text, location := location }], by rw [statement]; rfl, ?_⟩
    intro v hv
    rw [mem_singleton.mp hv]
    exact ⟨rfl, .inl (mem_singleton_self _)⟩
  | conditional condition body =>
    refine ⟨(hoist condition state).1.2.map Temp.place, ?_, fun v hv => ?_⟩
    · obtain ⟨top, hframes⟩ : ∃ top, (block none body (opened condition state)).2.frames =
          top :: hoistedFrames condition state := frames_block_opened condition body
      rw [statement_conditional_eq]
      change (block none body (opened condition state)).2.frames.tail = _
      rw [hframes, tail_cons]
      rfl
    · obtain ⟨hcounted, hfree⟩ := mem_places_hoist hown hv
      exact ⟨(Bool.and_eq_true_iff.mp hcounted).1, .inr hfree⟩
  | expression value location =>
    exact ⟨[], by rw [statement]; exact (later_expression value location).frames, by simp⟩
  | assignment target value location =>
    exact ⟨[], by rw [statement]; exact (later_assignment _ target value location).frames, by simp⟩
  | result value location =>
    exact ⟨[], by rw [statement]; exact (later_result value location).frames, by simp⟩
  | function | retain | release => exact ⟨[], by rw [statement] <;> first | rfl | simp, by simp⟩

end Lower

namespace Fit

variable {types : ReturnTypes} {own : List String} {state : Lowering} {stmt : Stmt}
  {block : List Stmt}

/-- What comes behind a statement can be lowered behind it. -/
theorem next (h : Fit types own state.frames (stmt :: block)) (hown : own ⊆ state.names.taken)
    (previous : Option Stmt) : Fit types own (statement previous stmt state).2.frames block := by
  obtain ⟨locals, hframes, hlocals⟩ := frames_statement previous stmt hown
  have hdistinct := h.distinct
  rw [Stmt.placesOfAll, nodup_append] at hdistinct
  rw [hframes]
  refine h.tail.declareAll (fun v hv => (hlocals v hv).1) fun v hv hplace => ?_
  rcases (hlocals v hv).2 with hdeclared | hfree
  · exact hdistinct.2.2 _ hdeclared _ hplace rfl
  · exact h.tail.placed_not_mem hfree hplace

/-- The body behind a condition can be lowered when the temporaries of the condition have been
made. -/
theorem opened {condition : Expr} {location : Location}
    (h : Fit types own state.frames [.conditional condition block location])
    (hown : own ⊆ state.names.taken) :
    Fit types own (opened condition state).frames block := by
  rw [frames_opened]
  refine (h.declareAll (fun v hv => ?_) fun v hv => ?_).body
  · exact (Bool.and_eq_true_iff.mp (mem_places_hoist hown hv).1).1
  · exact h.placed_not_mem (mem_places_hoist hown hv).2

end Fit

end FrontEnd.Refcount
