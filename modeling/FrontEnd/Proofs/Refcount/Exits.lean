import FrontEnd.Proofs.Refcount.Capture
import Mathlib.Data.List.Perm.Basic

/-!
# Releases on the ways out of a function

A variable that owns a reference has to give it up once, on whatever way the function is left. Here
the releases that do this are told apart from the other ones, and counted along every path. What is
owed is said without lowering: a release for each integer and text that has a reference of its own,
among them the parameters that get a value somewhere (`owed`, `parametersOf`).

The lowered form of a function is taken apart into one `Piece` for each statement of the function.
The pieces say which releases are made because something is left:

* a return (`Piece.leave`) releases the temporaries of its expression, newest first, and then the
  variables of all bodies around it, innermost and newest first, without the one that is returned
  (`Leaves`);
* a body that does not end with a return releases its own variables at its end, newest first;
  otherwise nothing is added (`Piece.closingOf`);
* all other statements release nothing but their own temporaries, and what a variable held before it
  got another value (`Settles`).

A condition may be met or not, so there are many paths through a function (`Path`). Each of them
follows the pieces (`Path.exists_walk`), which tell what is declared on it and what is released on
leaving bodies (`Walk`). Induction along the walk shows that these are the same, but for the
variable that is returned (`Walk.balanced`).

Nothing is assumed about the program; it need not have been checked.
-/

namespace FrontEnd

open List

/-- Whether a statement neither branches nor returns. -/
def Stmt.isStraight : Stmt → Bool
  | .conditional .. | .result .. => false
  | _ => true

/-- Whether a statement is one that may stand in front of a release: it declares something, gives a
value to something, evaluates something or takes a reference. -/
def Stmt.prepares : Stmt → Bool
  | .declaration .. | .assignment .. | .expression .. | .retain .. => true
  | _ => false

namespace Refcount

/-! ### What is owed -/

/-- The values that are counted are integers and texts. -/
def OnHeap (type : String) : Prop :=
  type = "Int" ∨ type = "String"

instance (type : String) : Decidable (OnHeap type) :=
  inferInstanceAs (Decidable (_ ∨ _))

theorem isHeap_eq (type : String) : isHeap type = decide (OnHeap type) := by
  rw [isHeap, ← Bool.decide_or]
  rfl

/-- A name gets a value somewhere in a block, maybe in a body inside. -/
inductive GetsValue (name : String) : List Stmt → Prop
  | here {target : Name} {value : Expr} {location : Location} {block : List Stmt}
    (h : target.text = name) : GetsValue name (.assignment target value location :: block)
  | inside {condition : Expr} {body block : List Stmt} {location : Location}
    (h : GetsValue name body) : GetsValue name (.conditional condition body location :: block)
  | behind {stmt : Stmt} {block : List Stmt} (h : GetsValue name block) :
    GetsValue name (stmt :: block)

theorem GetsValue.mem {name : String} {block : List Stmt} (h : GetsValue name block) :
    name ∈ Lower.assignedNamesOfAll block := by
  induction h with
  | here h => exact mem_append_left _ (mem_singleton.mpr h.symm)
  | inside _ ih => exact mem_append_left _ ih
  | behind _ ih => exact mem_append_right _ ih

theorem getsValue_of_mem {name : String} :
    ∀ {block : List Stmt}, name ∈ Lower.assignedNamesOfAll block → GetsValue name block
  | stmt :: block, h => by
    rw [Lower.assignedNamesOfAll] at h
    rcases mem_append.mp h with h | h
    · cases stmt with
      | assignment => exact .here (mem_singleton.mp h).symm
      | conditional => exact .inside (getsValue_of_mem h)
      | expression | declaration | result | function | retain | release => cases h
    · exact .behind (getsValue_of_mem h)

instance (name : String) (block : List Stmt) : Decidable (GetsValue name block) :=
  decidable_of_iff (name ∈ Lower.assignedNamesOfAll block) ⟨getsValue_of_mem, GetsValue.mem⟩

/-- **The parameters of a function as variables.** One has a reference of its own if it is counted
and the function gives it a value; otherwise it borrows the one of the caller. -/
def parametersOf (function : FunctionDef) : List Local :=
  function.parameters.map fun parameter =>
    { name := parameter.name.text
      type := parameter.type.text
      location := parameter.name.location
      owned := decide (OnHeap parameter.type.text ∧
        GetsValue parameter.name.text function.body) }

/-- One statement for each of some variables that is counted and has a reference of its own. -/
def forOwners (make : String → Location → Stmt) (locals : List Local) : List Stmt :=
  locals.filterMap fun v =>
    if v.owned = true ∧ OnHeap v.type then some (make v.name v.location) else none

/-- **What is owed for variables**, in their order: a release of each that has a reference. -/
def owed (locals : List Local) : List Stmt :=
  forOwners .release locals

/-- The references that parameters take before anything else. -/
def prologueOf (function : FunctionDef) : List Stmt :=
  forOwners .retain (parametersOf function)

theorem forOwners_eq (make : String → Location → Stmt) (locals : List Local) :
    forOwners make locals =
      (locals.filter Local.isCounted).map fun v => make v.name v.location := by
  induction locals with
  | nil => rfl
  | cons v locals ih =>
    rw [forOwners, filterMap_cons, filter_cons, Local.isCounted, isHeap_eq]
    by_cases h : v.owned = true ∧ OnHeap v.type
    · rw [if_pos h, h.1, decide_eq_true h.2]
      exact congrArg _ ih
    · rw [if_neg h, if_neg (by simpa using h)]
      exact ih

/-- **Lowering releases what is owed**, and it tells the same parameters to have references. -/
theorem releases_eq_owed (locals : List Local) : releases locals = owed locals :=
  (forOwners_eq .release locals).symm

theorem parameters_eq_parametersOf (function : FunctionDef) :
    Lower.parameters function = parametersOf function := by
  refine map_congr_left fun parameter _ => ?_
  have hassigned : (Lower.assignedNamesOfAll function.body).contains parameter.name.text =
      decide (GetsValue parameter.name.text function.body) := by
    rw [Bool.eq_iff_iff, contains_iff_mem, decide_eq_true_iff]
    exact ⟨getsValue_of_mem, GetsValue.mem⟩
  rw [Lower.ofParameter, isHeap_eq, hassigned, Bool.decide_and]

theorem owed_append (first second : List Local) :
    owed (first ++ second) = owed first ++ owed second :=
  filterMap_append

theorem perm_owed {first second : List Local} (h : first.Perm second) :
    (owed first).Perm (owed second) :=
  h.filterMap _

/-! ### Pieces -/

/-- The variables that statements declare in the body that they stand in, newest first. -/
def newLocals : List Stmt → List Local
  | [] => []
  | .declaration type name location :: block =>
    newLocals block ++ [{ name, type := type.text, location }]
  | _ :: block => newLocals block

/-- A statement and its lowered form, taken apart. -/
inductive Piece where
  /-- A statement that neither branches nor returns. -/
  | simple (source : Stmt) (code : List Stmt)
  /-- A condition with its body: what stands in front of it, what is left of it, and the releases at
  the end of the body. -/
  | branch (condition : Expr) (body : List Piece) (location : Location) (front : List Stmt)
      (hoisted : Expr) (closing : List Stmt)
  /-- A return: what stands in front of it, the releases of the temporaries of its expression, those
  of variables, and what is left of the expression. -/
  | leave (value : Expr) (location : Location) (front arguments released : List Stmt)
      (hoisted : Expr)

namespace Piece

mutual

/-- The statement that was lowered. -/
def source : Piece → Stmt
  | .simple source _ => source
  | .branch condition body location .. => .conditional condition (sources body) location
  | .leave value location .. => .result value location

/-- The statements that were lowered. -/
def sources : List Piece → List Stmt
  | [] => []
  | piece :: pieces => piece.source :: sources pieces

end

mutual

/-- The lowered form of the statement. -/
def code : Piece → List Stmt
  | .simple _ code => code
  | .branch _ body location front hoisted closing =>
    front ++ [.conditional hoisted (codes body ++ closing) location]
  | .leave _ location front arguments released hoisted =>
    front ++ arguments ++ released ++ [.result hoisted location]

/-- The lowered form of the statements. -/
def codes : List Piece → List Stmt
  | [] => []
  | piece :: pieces => piece.code ++ codes pieces

end

/-- The variables that a statement adds to the body that it stands in: what it declares, and the
temporaries of a condition. -/
def adds : Piece → List Local
  | .simple (.declaration type name location) _ => [{ name, type := type.text, location }]
  | .branch _ _ _ front .. => newLocals front
  | _ => []

/-- The variables that statements add to their body, newest first. -/
def addsAll : List Piece → List Local
  | [] => []
  | piece :: pieces => addsAll pieces ++ piece.adds

/-- The releases at the end of a body with the given statements and variables. -/
def closingOf (pieces : List Piece) (scope : List Local) : List Stmt :=
  if endsWithResult (sources pieces) then [] else owed (addsAll pieces ++ scope)

end Piece

/-! ### Where releases stand -/

/-- What stands in front, and then the releases of all temporaries that were made there, newest
first. -/
def Spends (code : List Stmt) : Prop :=
  ∃ front, (∀ stmt ∈ front, stmt.prepares = true) ∧
    code = front ++ (newLocals front).map Local.release

/-- **The releases of a statement that neither branches nor returns**, where the given variables are
known. It releases the temporaries that it makes, but for one that a variable takes its new value
from: then the variable releases its old value. -/
def Settles (known : List Local) : Stmt → List Stmt → Prop
  | .expression _ _, code => Spends code
  | .assignment target _ location, code => Spends code ∨
    ∃ front v temp temps, (∀ stmt ∈ front, stmt.prepares = true) ∧ newLocals front = temp :: temps ∧
      known.find? (·.name = target.text) = some v ∧
      code = front ++ [v.release, .assignment target temp.use location] ++ temps.map Local.release
  | .conditional .., _ | .result .., _ => False
  | stmt, code => code = [stmt]

/-- **The releases of a return**, where the given variables are known. -/
inductive Leaves (known : List Local) : Expr → List Stmt → List Stmt → List Stmt → Expr → Prop
  /-- A variable that is returned is not released. -/
  | name {name : Name} {front : List Stmt} (declared : newLocals front = []) :
      Leaves known (.name name) front [] (owed (known.eraseP (·.name = name.text))) (.name name)
  /-- Any other value is returned from one more temporary. -/
  | moved {value : Expr} {front : List Stmt} {temp : Local} {temps : List Local}
      (notName : ∀ name, value ≠ .name name) (declared : newLocals front = temp :: temps) :
      Leaves known value front (temps.map Local.release) (owed known) temp.use
  /-- A call without a type is returned as it is, and everything made for it is released. -/
  | untyped {value hoisted : Expr} {front : List Stmt} (isCall : value.isCall = true)
      (notTemp : ∀ name, hoisted ≠ .name name) :
      Leaves known value front ((newLocals front).map Local.release) (owed known) hoisted

namespace Piece

mutual

/-- **The releases of a statement** in a body with variables `scope` so far, where there are those
in `outer` around it. Both are given newest first, and `outer` innermost first. -/
def Closes (outer scope : List Local) : Piece → Prop
  | .simple source code => Settles (scope ++ outer) source code
  | .branch _ body _ front _ closing => (∀ stmt ∈ front, stmt.prepares = true) ∧
    CloseAll (newLocals front ++ scope ++ outer) [] body ∧ closing = closingOf body []
  | .leave value _ front arguments released hoisted => (∀ stmt ∈ front, stmt.prepares = true) ∧
    Leaves (scope ++ outer) value front arguments released hoisted

/-- The same for statements one after the other. -/
def CloseAll (outer scope : List Local) : List Piece → Prop
  | [] => True
  | piece :: pieces => piece.Closes outer scope ∧ CloseAll outer (piece.adds ++ scope) pieces

end

end Piece

/-! ### Paths -/

/-- **The paths through a block**: the statements that are run, if conditions may be met or not, and
whether the last one of them returns. -/
inductive Path : List Stmt → List Stmt → Bool → Prop
  | done : Path [] [] false
  | step {stmt : Stmt} {block trace : List Stmt} {returned : Bool}
      (straight : stmt.isStraight = true) (rest : Path block trace returned) :
      Path (stmt :: block) (stmt :: trace) returned
  | leave (value : Expr) (location : Location) (block : List Stmt) :
      Path (.result value location :: block) [.result value location] true
  | skip {condition : Expr} {body block trace : List Stmt} {location : Location} {returned : Bool}
      (rest : Path block trace returned) :
      Path (.conditional condition body location :: block) trace returned
  | through {condition : Expr} {body block inner trace : List Stmt} {location : Location}
      {returned : Bool} (inside : Path body inner false) (rest : Path block trace returned) :
      Path (.conditional condition body location :: block) (inner ++ trace) returned
  | within {condition : Expr} {body block inner : List Stmt} {location : Location}
      (inside : Path body inner true) :
      Path (.conditional condition body location :: block) inner true

/-- How a walk ends: behind the last statement, or with a return, which keeps the variable that is
returned. -/
inductive Ending where
  | through
  | left (kept : Option Local)

namespace Ending

/-- Whether the walk has returned. -/
def returned : Ending → Bool
  | .through => false
  | .left _ => true

/-- What is run behind the walk, if there is something behind the statements. -/
def closing (behind : List Stmt) : Ending → List Stmt
  | .through => behind
  | .left _ => []

/-- The variable that is returned. -/
def kept : Ending → List Local
  | .through => []
  | .left kept => kept.toList

end Ending

/-- The variable that an expression stands for. -/
def resolve? (known : List Local) : Expr → Option Local
  | .name name => known.find? (·.name = name.text)
  | _ => none

/-- **A walk along the pieces of a block**: the statements that are run, the variables that bodies
get on the way, and the releases that are made because bodies are left. -/
inductive Walk : List Local → List Local → List Piece → List Stmt → List Local →
    List Stmt → Ending → Prop
  | done (outer scope : List Local) : Walk outer scope [] [] [] [] .through
  | simple {outer scope : List Local} {source : Stmt} {code : List Stmt} {pieces : List Piece}
      {trace : List Stmt} {declared : List Local} {released : List Stmt} {ending : Ending}
      (rest : Walk outer ((Piece.simple source code).adds ++ scope) pieces trace declared
        released ending) :
      Walk outer scope (.simple source code :: pieces) (code ++ trace)
        (declared ++ (Piece.simple source code).adds) released ending
  | leave {outer scope : List Local} {value hoisted : Expr} {location : Location}
      {front arguments released : List Stmt} (pieces : List Piece) :
      Walk outer scope (.leave value location front arguments released hoisted :: pieces)
        (front ++ arguments ++ released ++ [.result hoisted location]) [] released
        (.left (resolve? (scope ++ outer) value))
  | skip {outer scope : List Local} {condition hoisted : Expr} {body pieces : List Piece}
      {location : Location} {front closing trace : List Stmt} {declared : List Local}
      {released : List Stmt} {ending : Ending}
      (rest : Walk outer (newLocals front ++ scope) pieces trace declared released ending) :
      Walk outer scope (.branch condition body location front hoisted closing :: pieces)
        (front ++ trace) (declared ++ newLocals front) released ending
  | through {outer scope : List Local} {condition hoisted : Expr} {body pieces : List Piece}
      {location : Location} {front closing inner trace : List Stmt}
      {declared declared' : List Local} {released released' : List Stmt} {ending : Ending}
      (inside : Walk (newLocals front ++ scope ++ outer) [] body inner declared' released' .through)
      (rest : Walk outer (newLocals front ++ scope) pieces trace declared released ending) :
      Walk outer scope (.branch condition body location front hoisted closing :: pieces)
        (front ++ (inner ++ closing) ++ trace) (declared ++ (declared' ++ newLocals front))
        (released' ++ closing ++ released) ending
  | within {outer scope : List Local} {condition hoisted : Expr} {body : List Piece}
      {location : Location} {front closing inner : List Stmt} {declared' : List Local}
      {released' : List Stmt} {kept : Option Local} (pieces : List Piece)
      (inside : Walk (newLocals front ++ scope ++ outer) [] body inner declared' released'
        (.left kept)) :
      Walk outer scope (.branch condition body location front hoisted closing :: pieces)
        (front ++ inner) (declared' ++ newLocals front) released' (.left kept)

/-! ### Straight statements -/

section Straight

variable {code front : List Stmt} {known : List Local}

theorem isStraight_of_prepares {stmt : Stmt} (h : stmt.prepares = true) :
    stmt.isStraight = true := by
  cases stmt with
  | declaration | assignment | expression | retain => rfl
  | conditional | result | function | release => cases h

theorem straight_map_release (locals : List Local) :
    ∀ stmt ∈ locals.map Local.release, stmt.isStraight = true :=
  forall_mem_map.mpr fun _ _ => rfl

theorem straight_forOwners {make : String → Location → Stmt}
    (hmake : ∀ name location, (make name location).isStraight = true) (locals : List Local) :
    ∀ stmt ∈ forOwners make locals, stmt.isStraight = true := by
  rw [forOwners_eq]
  exact forall_mem_map.mpr fun v _ => hmake v.name v.location

theorem straight_owed (locals : List Local) : ∀ stmt ∈ owed locals, stmt.isStraight = true :=
  straight_forOwners (fun _ _ => rfl) locals

theorem straight_closingOf (pieces : List Piece) (scope : List Local) :
    ∀ stmt ∈ Piece.closingOf pieces scope, stmt.isStraight = true := by
  rw [Piece.closingOf]
  split
  · exact forall_mem_nil _
  · exact straight_owed _

theorem straight_of_spends (h : Spends code) : ∀ stmt ∈ code, stmt.isStraight = true := by
  obtain ⟨front, hfront, rfl⟩ := h
  exact forall_mem_append.mpr
    ⟨fun stmt hstmt => isStraight_of_prepares (hfront stmt hstmt), straight_map_release _⟩

theorem straight_of_settles {source : Stmt} (h : Settles known source code) :
    ∀ stmt ∈ code, stmt.isStraight = true := by
  cases source with
  | expression => exact straight_of_spends h
  | assignment =>
    rcases h with h | ⟨front, v, temp, temps, hfront, -, -, rfl⟩
    · exact straight_of_spends h
    · refine forall_mem_append.mpr ⟨forall_mem_append.mpr ⟨?_, ?_⟩, straight_map_release _⟩
      · exact fun stmt hstmt => isStraight_of_prepares (hfront stmt hstmt)
      · simp [Local.release, Stmt.isStraight]
  | conditional | result => cases h
  | declaration | function | retain | release =>
    obtain rfl : _ = [_] := h
    exact forall_mem_singleton.mpr rfl

theorem straight_of_leaves {value hoisted : Expr} {arguments released : List Stmt}
    (hfront : ∀ stmt ∈ front, stmt.prepares = true)
    (h : Leaves known value front arguments released hoisted) :
    ∀ stmt ∈ front ++ arguments ++ released, stmt.isStraight = true := by
  refine forall_mem_append.mpr ⟨forall_mem_append.mpr ⟨?_, ?_⟩, ?_⟩
  · exact fun stmt hstmt => isStraight_of_prepares (hfront stmt hstmt)
  · cases h with
    | name => exact forall_mem_nil _
    | moved | untyped => exact straight_map_release _
  · cases h <;> exact straight_owed _

/-- A path runs all statements that neither branch nor return. -/
theorem Path.of_append {block trace : List Stmt} {returned : Bool}
    (hfront : ∀ stmt ∈ front, stmt.isStraight = true) (h : Path (front ++ block) trace returned) :
    ∃ rest, trace = front ++ rest ∧ Path block rest returned := by
  induction front generalizing trace with
  | nil => exact ⟨trace, rfl, h⟩
  | cons stmt front ih =>
    rw [forall_mem_cons] at hfront
    cases h with
    | step _ hrest =>
      obtain ⟨rest, rfl, hblock⟩ := ih hfront.2 hrest
      exact ⟨rest, rfl, hblock⟩
    | leave | skip | through | within => cases hfront.1

end Straight

/-! ### Paths are walks -/

/-- **Every path through the lowered statements of a body is a walk along its pieces.** What stands
behind the statements is run if nothing has returned. -/
theorem Path.exists_walk : ∀ (pieces : List Piece) {outer scope : List Local}
    {behind trace : List Stmt} {returned : Bool},
    Piece.CloseAll outer scope pieces → (∀ stmt ∈ behind, stmt.isStraight = true) →
    Path (Piece.codes pieces ++ behind) trace returned →
    ∃ walked declared released ending, Walk outer scope pieces walked declared released ending ∧
      trace = walked ++ ending.closing behind ∧ returned = ending.returned
  | [], outer, scope, behind, trace, returned, _, hbehind, h => by
    rw [Piece.codes, nil_append, ← append_nil behind] at h
    obtain ⟨rest, rfl, hrest⟩ := h.of_append hbehind
    cases hrest
    exact ⟨[], [], [], .through, .done _ _, append_nil _, rfl⟩
  | .simple source code :: pieces, outer, scope, behind, trace, returned, hclose, hbehind, h => by
    rw [Piece.CloseAll, Piece.Closes] at hclose
    rw [Piece.codes, Piece.code, append_assoc] at h
    obtain ⟨rest, rfl, hrest⟩ := h.of_append (straight_of_settles hclose.1)
    obtain ⟨walked, declared, released, ending, hwalk, rfl, hreturned⟩ :=
      Path.exists_walk pieces hclose.2 hbehind hrest
    exact ⟨_, _, _, _, .simple hwalk, (append_assoc _ _ _).symm, hreturned⟩
  | .leave value location front arguments released hoisted :: pieces, outer, scope, behind, trace,
      returned, hclose, hbehind, h => by
    rw [Piece.CloseAll, Piece.Closes] at hclose
    rw [Piece.codes, Piece.code, append_assoc, append_assoc] at h
    obtain ⟨rest, rfl, hrest⟩ := h.of_append (straight_of_leaves hclose.1.1 hclose.1.2)
    -- nothing behind the return is run
    cases hrest with
    | step hstmt => cases hstmt
    | leave => exact ⟨_, _, _, _, .leave pieces, (append_nil _).symm, rfl⟩
  | .branch condition body location front hoisted closing :: pieces, outer, scope, behind, trace,
      returned, hclose, hbehind, h => by
    rw [Piece.CloseAll, Piece.Closes] at hclose
    obtain ⟨⟨hfront, hbody, rfl⟩, hpieces⟩ := hclose
    rw [Piece.codes, Piece.code, append_assoc, append_assoc] at h
    obtain ⟨rest, rfl, hrest⟩ := h.of_append fun stmt hstmt =>
      isStraight_of_prepares (hfront stmt hstmt)
    cases hrest with
    | step hstmt => cases hstmt
    | skip hrest =>
      obtain ⟨walked, declared, released, ending, hwalk, rfl, hreturned⟩ :=
        Path.exists_walk pieces hpieces hbehind hrest
      exact ⟨_, _, _, _, .skip hwalk, (append_assoc _ _ _).symm, hreturned⟩
    | @through _ _ _ inner trace _ _ hinside hrest =>
      obtain ⟨walked, declared, released, ending, hwalk, rfl, hreturned⟩ :=
        Path.exists_walk pieces hpieces hbehind hrest
      obtain ⟨walked', declared', released', ending', hwalk', rfl, hreturned'⟩ :=
        Path.exists_walk body hbody (straight_closingOf _ _) hinside
      cases ending' with
      | left => cases hreturned'
      | through => exact ⟨_, _, _, _, .through hwalk' hwalk, by simp [Ending.closing], hreturned⟩
    | within hinside =>
      obtain ⟨walked', declared', released', ending', hwalk', rfl, hreturned'⟩ :=
        Path.exists_walk body hbody (straight_closingOf _ _) hinside
      cases ending' with
      | through => cases hreturned'
      | left => exact ⟨_, _, _, _, .within pieces hwalk', by simp [Ending.closing], rfl⟩

/-! ### Walks are balanced -/

section Balanced

variable {known outer scope declared left : List Local} {value : Expr} {released trace : List Stmt}
  {pieces : List Piece} {ending : Ending}

/-- The variable that a name stands for, and all the other ones. -/
theorem perm_eraseP_find? (known : List Local) (name : String) :
    (known.eraseP (·.name = name) ++ (known.find? (·.name = name)).toList).Perm known := by
  induction known with
  | nil => exact .nil
  | cons v known ih =>
    by_cases hname : v.name = name
    · rw [eraseP_cons_of_pos (by simpa using hname), find?_cons_of_pos (by simpa using hname)]
      exact perm_append_singleton v known
    · rw [eraseP_cons_of_neg (by simpa using hname), find?_cons_of_neg (by simpa using hname)]
      exact ih.cons v

theorem resolve?_of_ne_name (h : ∀ name, value ≠ .name name) : resolve? known value = none := by
  cases value with
  | name name => exact absurd rfl (h name)
  | integer | string | call => rfl

theorem ne_name_of_isCall (h : value.isCall = true) (name : Name) : value ≠ .name name := by
  rintro rfl
  cases h

/-- What a return releases, and the variable that it keeps, are all variables there are. -/
theorem Leaves.perm {hoisted : Expr} {front arguments : List Stmt}
    (h : Leaves known value front arguments released hoisted) :
    (released ++ owed (resolve? known value).toList).Perm (owed known) := by
  cases h with
  | @name name =>
    rw [resolve?, ← owed_append]
    exact perm_owed (perm_eraseP_find? known name.text)
  | moved notName =>
    rw [resolve?_of_ne_name notName]
    exact .of_eq (append_nil _)
  | untyped isCall =>
    rw [resolve?_of_ne_name (ne_name_of_isCall isCall)]
    exact .of_eq (append_nil _)

theorem endsWithResult_cons_cons (first second : Stmt) (block : List Stmt) :
    endsWithResult (first :: second :: block) = endsWithResult (second :: block) := by
  rw [endsWithResult, getLast?_cons_cons, endsWithResult]

/-- Only a statement in front of others, or one that does not return, has something behind it. -/
theorem endsWithResult_sources_cons {piece : Piece} (hpiece : endsWithResult [piece.source] = false)
    (h : endsWithResult (Piece.sources pieces) = false) :
    endsWithResult (Piece.sources (piece :: pieces)) = false := by
  cases pieces with
  | nil => exact hpiece
  | cons =>
    rw [Piece.sources, Piece.sources, endsWithResult_cons_cons]
    exact h

/-- A walk comes to the end only of what does not end with a return. -/
theorem Walk.not_endsWithResult (h : Walk outer scope pieces trace declared released .through)
    (hclose : Piece.CloseAll outer scope pieces) :
    endsWithResult (Piece.sources pieces) = false := by
  generalize hending : Ending.through = ending at h
  induction h with
  | done => rfl
  | @simple _ _ source _ _ _ _ _ _ _ ih =>
    refine endsWithResult_sources_cons ?_ (ih hclose.2 hending)
    have hsettles := hclose.1
    cases source with
    | conditional | result => cases hsettles
    | expression | declaration | assignment | function | retain | release => rfl
  | leave => cases hending
  | skip _ ih | through _ _ _ ih => exact endsWithResult_sources_cons rfl (ih hclose.2 hending)
  | within => cases hending

theorem closingOf_of_not_endsWithResult (h : endsWithResult (Piece.sources pieces) = false)
    (scope : List Local) :
    Piece.closingOf pieces scope = owed (Piece.addsAll pieces ++ scope) := by
  rw [Piece.closingOf, h, if_neg Bool.false_ne_true]

/-- What was declared on the way is what was released on leaving bodies. What is left to the body is
still to be released; with a return nothing is, but for the variable that is returned. -/
def Ending.Balanced (known declared left : List Local) (released : List Stmt) : Ending → Prop
  | .through => (released ++ owed left).Perm (owed declared)
  | .left kept => (released ++ owed kept.toList).Perm (owed (declared ++ known))

/-- Variables that the body has got first. -/
theorem Ending.Balanced.add {added : List Local}
    (h : ending.Balanced (added ++ scope ++ outer) declared left released) :
    ending.Balanced (scope ++ outer) (declared ++ added) (left ++ added) released := by
  cases ending with
  | through =>
    change (released ++ owed (left ++ added)).Perm (owed (declared ++ added))
    rw [owed_append, owed_append, ← append_assoc]
    exact h.append_right _
  | left kept =>
    change (released ++ owed kept.toList).Perm (owed (declared ++ added ++ (scope ++ outer)))
    rw [append_assoc, ← append_assoc added]
    exact h

/-- What a body has declared and released comes first. -/
theorem Ending.Balanced.behind {declared' : List Local} {released' : List Stmt}
    (h : ending.Balanced known declared left released) (hinner : released'.Perm (owed declared')) :
    ending.Balanced known (declared ++ declared') left (released' ++ released) := by
  cases ending with
  | through =>
    change (released' ++ released ++ owed left).Perm (owed (declared ++ declared'))
    rw [owed_append, append_assoc]
    exact (hinner.append h).trans perm_append_comm
  | left kept =>
    change (released' ++ released ++ owed kept.toList).Perm (owed (declared ++ declared' ++ known))
    calc released' ++ released ++ owed kept.toList
      _ = released' ++ (released ++ owed kept.toList) := append_assoc _ _ _
      Perm _ (owed declared' ++ owed (declared ++ known)) := hinner.append h
      Perm _ (owed (declared ++ declared' ++ known)) := by
        rw [← owed_append]
        refine perm_owed ?_
        rw [← append_assoc]
        exact perm_append_comm.append_right known

/-- **What is declared on a walk is released once on leaving the bodies that it belongs to**, but
for the variable that is returned. The induction is on the walk: what a body has released when it is
left makes up for what was declared in it, and a return makes up for all bodies around it at
once. -/
theorem Walk.balanced (h : Walk outer scope pieces trace declared released ending)
    (hclose : Piece.CloseAll outer scope pieces) :
    ending.Balanced (scope ++ outer) declared (Piece.addsAll pieces) released := by
  induction h with
  | done => exact .nil
  | simple _ ih => exact (ih hclose.2).add
  | leave => exact hclose.1.2.perm
  | skip _ ih => exact (ih hclose.2).add
  | @through _ _ _ _ body _ _ _ _ _ _ _ declared' _ released' _ hinside hrest ihbody ih =>
    obtain ⟨⟨-, hbody, rfl⟩, hpieces⟩ := hclose
    -- the body was run to its end, so what it still owned was released there
    have hclosing : Piece.closingOf body [] = owed (Piece.addsAll body) := by
      rw [closingOf_of_not_endsWithResult (hinside.not_endsWithResult hbody), append_nil]
    have hinner : (released' ++ Piece.closingOf body []).Perm (owed declared') := by
      rw [hclosing]
      exact ihbody hbody
    rw [← append_assoc]
    exact ((ih hpieces).behind hinner).add
  | within pieces hinside ih =>
    obtain ⟨⟨-, hbody, rfl⟩, -⟩ := hclose
    have hinner := ih hbody
    change (_ ++ owed _).Perm (owed (_ ++ _ ++ (_ ++ _)))
    rw [append_assoc, ← append_assoc (newLocals _)]
    exact hinner

end Balanced

/-! ### Setting up temporaries -/

section Setups

variable {temp : Temp} {temps : List Temp}

theorem newLocals_append (first second : List Stmt) :
    newLocals (first ++ second) = newLocals second ++ newLocals first := by
  induction first with
  | nil => exact (append_nil _).symm
  | cons stmt first ih =>
    cases stmt with
    | declaration => rw [cons_append, newLocals, newLocals, ih, append_assoc]
    | expression | assignment | conditional | result | function | retain | release => exact ih

theorem newLocals_setup (h : temp.place.owned = true) : newLocals temp.setup = [temp.place] := by
  obtain ⟨⟨name, type, location, owned⟩, value⟩ := temp
  obtain rfl : owned = true := h
  rw [Temp.setup]
  split <;> rfl

theorem newLocals_setups (h : ∀ temp ∈ temps, temp.place.owned = true) :
    newLocals (temps.flatMap Temp.setup) = (temps.map Temp.place).reverse := by
  induction temps with
  | nil => rfl
  | cons temp temps ih =>
    rw [forall_mem_cons] at h
    rw [flatMap_cons, newLocals_append, newLocals_setup h.1, ih h.2, map_cons, reverse_cons]

theorem prepares_setup (temp : Temp) : ∀ stmt ∈ temp.setup, stmt.prepares = true := by
  rw [Temp.setup]
  split <;> simp [Stmt.prepares]

theorem prepares_setups (temps : List Temp) :
    ∀ stmt ∈ temps.flatMap Temp.setup, stmt.prepares = true := by
  intro stmt hstmt
  obtain ⟨temp, -, hstmt⟩ := mem_flatMap.mp hstmt
  exact prepares_setup temp stmt hstmt

/-- Statements between setting up temporaries and releasing them. -/
theorem spends_setups {core : List Stmt} (htemps : ∀ temp ∈ temps, temp.place.owned = true)
    (hcore : ∀ stmt ∈ core, stmt.prepares = true) (hlocals : newLocals core = []) :
    Spends (temps.flatMap Temp.setup ++ core ++ Lower.releaseTemps temps) := by
  refine ⟨temps.flatMap Temp.setup ++ core,
    forall_mem_append.mpr ⟨prepares_setups temps, hcore⟩, ?_⟩
  rw [newLocals_append, hlocals, nil_append, newLocals_setups htemps, releaseTemps_eq_map]

theorem newLocals_setups_setup (htemps : ∀ temp ∈ temps, temp.place.owned = true)
    (htemp : temp.place.owned = true) :
    newLocals (temps.flatMap Temp.setup ++ temp.setup) =
      temp.place :: (temps.map Temp.place).reverse := by
  rw [newLocals_append, newLocals_setup htemp, newLocals_setups htemps, singleton_append]

theorem prepares_setups_setup (temps : List Temp) (temp : Temp) :
    ∀ stmt ∈ temps.flatMap Temp.setup ++ temp.setup, stmt.prepares = true :=
  forall_mem_append.mpr ⟨prepares_setups temps, prepares_setup temp⟩

end Setups

/-! ### Taking apart -/

namespace Lower

variable {state : Lowering} {outer : Frames} {scope : List Local}

theorem owned_hoist (expression : Expr) :
    ∀ temp ∈ (hoist expression state).1.2, temp.place.owned = true := by
  intro temp htemp
  have hcounted := (newTemps_hoist expression _).counted temp htemp
  rw [Local.isCounted, Bool.and_eq_true] at hcounted
  exact hcounted.1

/-- One more temporary, for what is left of an expression. -/
theorem newLocals_moved (value : Expr) (type : String) (state : Lowering) :
    newLocals ((hoist value state).1.2.flatMap Temp.setup ++
        (makeTemp (hoist value state).1.1 type (hoist value state).2).1.setup) =
      (makeTemp (hoist value state).1.1 type (hoist value state).2).1.place ::
        ((hoist value state).1.2.map Temp.place).reverse :=
  newLocals_setups_setup (owned_hoist value) rfl

theorem settles_expression (known : List Local) (value : Expr) (location : Location) :
    Settles known (.expression value location) (expression value location state).1 := by
  have hkept : Spends ((hoist value state).1.2.flatMap Temp.setup ++
      [.expression (hoist value state).1.1 location] ++ releaseTemps (hoist value state).1.2) :=
    spends_setups (owned_hoist value) (forall_mem_singleton.mpr rfl) rfl
  rw [expression_eq]
  cases value.isCall with
  | false => exact hkept
  | true =>
    cases (valueType state.returnTypes value).filter isHeap with
    | none => exact hkept
    | some type =>
      -- the unwanted value is in the newest temporary, which is released first
      refine ⟨_, prepares_setups_setup (hoist value state).1.2
        (makeTemp (hoist value state).1.1 type (hoist value state).2).1, ?_⟩
      rw [newLocals_moved, map_cons, ← releaseTemps_eq_map]
      simp only [append_assoc, singleton_append]
      rfl

theorem settles_assignment (hframes : state.frames = scope :: outer) (fresh : Bool) (target : Name)
    (value : Expr) (location : Location) :
    Settles (scope ++ outer.flatten) (.assignment target value location)
      (assignment fresh target value location state).1 := by
  have hkept : ∀ {core : List Stmt}, (∀ stmt ∈ core, stmt.prepares = true) → newLocals core = [] →
      Settles (scope ++ outer.flatten) (.assignment target value location)
        ((hoist value state).1.2.flatMap Temp.setup ++ core ++
          releaseTemps (hoist value state).1.2) :=
    fun hcore hlocals => .inl (spends_setups (owned_hoist value) hcore hlocals)
  rw [assignment_eq]
  cases htarget : (state.frames.lookup target.text).filter fun v => isHeap v.type with
  | none => exact hkept (forall_mem_singleton.mpr rfl) rfl
  | some v =>
    cases fresh with
    | true =>
      dsimp only
      split
      · exact hkept (by simp [Stmt.prepares]) rfl
      · exact hkept (forall_mem_singleton.mpr rfl) rfl
    | false =>
      obtain ⟨hlookup, -⟩ := Option.filter_eq_some_iff.mp htarget
      rw [hframes, Frames.lookup, flatten_cons] at hlookup
      have hname : v.name = target.text := by simpa using find?_some hlookup
      refine .inr ⟨_, v, _, _, prepares_setups_setup _ _,
        newLocals_moved value v.type state, hlookup, ?_⟩
      rw [← releaseTemps_eq_map, Local.release, hname]
      simp only [append_assoc]
      rfl

/-- Values that are written down have a type. -/
theorem isCall_of_valueType_eq_none {types : ReturnTypes} {value : Expr}
    (hname : ∀ name, value ≠ .name name) (htype : valueType types value = none) :
    value.isCall = true := by
  cases value with
  | name name => exact absurd rfl (hname name)
  | integer | string => cases htype
  | call => rfl

/-- The return of a variable or of another value. -/
theorem exists_leave (hframes : state.frames = scope :: outer) (value : Expr)
    (location : Location) :
    ∃ front arguments released hoisted,
      front ++ arguments ++ released ++ [.result hoisted location] =
        (result value location state).1 ∧
      (∀ stmt ∈ front, stmt.prepares = true) ∧
      Leaves (scope ++ outer.flatten) value front arguments released hoisted := by
  rcases value.name_or_ne with ⟨name, rfl⟩ | hname
  · refine ⟨if (state.frames.lookup name.text).any fun v => !v.owned && isHeap v.type then
      [.retain name.text name.location] else [], [], _, _, ?_, ?_, .name ?_⟩
    · rw [result, resultName_eq, append_nil, hframes, ← releases_eq_owed]
      rfl
    · split <;> simp [Stmt.prepares]
    · split <;> rfl
  · rw [result_of_ne_name hname, resultValue_eq hname]
    have hreleased : state.frames.releaseAll none = owed (scope ++ outer.flatten) := by
      rw [hframes]
      exact releases_eq_owed _
    cases htype : valueType state.returnTypes value with
    | none =>
      refine ⟨(hoist value state).1.2.flatMap Temp.setup, _, _, (hoist value state).1.1, ?_,
        prepares_setups _,
        .untyped (isCall_of_valueType_eq_none hname htype) (hoist_ne_name hname)⟩
      rw [newLocals_setups (owned_hoist value), ← releaseTemps_eq_map, append_nil, hreleased]
    | some type =>
      refine ⟨_, _, _, _, ?_, prepares_setups_setup _ _,
        .moved hname (newLocals_moved value type state)⟩
      rw [← releaseTemps_eq_map, hreleased]
      rfl

/-- The releases that lowering adds at the end of a body. -/
theorem codes_append_closingOf {pieces : List Piece} {block lowered : List Stmt} {frames : Frames}
    (hsources : Piece.sources pieces = block) (hcodes : Piece.codes pieces = lowered)
    (hframes : frames = (Piece.addsAll pieces ++ scope) :: outer) :
    Piece.codes pieces ++ Piece.closingOf pieces scope =
      if endsWithResult block then lowered else lowered ++ frames.releaseInnermost := by
  subst hsources hcodes hframes
  rw [Piece.closingOf, ← releases_eq_owed]
  split
  · exact append_nil _
  · rfl

mutual

/-- **The lowered form of a statement can be taken apart**, and what it adds to its body are the
variables that lowering knows behind it. -/
theorem exists_piece (previous : Option Stmt) : ∀ (stmt : Stmt) {state : Lowering} {outer : Frames}
    {scope : List Local}, state.frames = scope :: outer →
    ∃ piece : Piece, piece.source = stmt ∧ piece.code = (statement previous stmt state).1 ∧
      piece.Closes outer.flatten scope ∧ (statement previous stmt state).2.frames =
        (piece.adds ++ scope) :: outer
  | .expression value location, state, outer, scope, hframes => by
    refine ⟨.simple _ _, rfl, rfl, ?_, ?_⟩
    · rw [statement]
      exact settles_expression (scope ++ outer.flatten) value location
    · rw [statement]
      exact (later_expression value location).frames.trans hframes
  | .declaration type name location, state, outer, scope, hframes => by
    refine ⟨.simple _ _, rfl, rfl, ?_, ?_⟩
    · rw [statement]
      rfl
    · rw [statement]
      change state.frames.declare _ = _
      rw [hframes]
      rfl
  | .assignment target value location, state, outer, scope, hframes => by
    refine ⟨.simple _ _, rfl, rfl, ?_, ?_⟩
    · rw [statement]
      exact settles_assignment hframes _ target value location
    · rw [statement]
      exact (later_assignment _ target value location).frames.trans hframes
  | .result value location, state, outer, scope, hframes => by
    obtain ⟨front, arguments, released, hoisted, hcode, hfront, hleaves⟩ :=
      exists_leave hframes value location
    refine ⟨.leave value location front arguments released hoisted, rfl, ?_, ⟨hfront, hleaves⟩, ?_⟩
    · rw [statement]
      exact hcode
    · rw [statement]
      exact (later_result value location).frames.trans hframes
  | .conditional condition body location, state, outer, scope, hframes => by
    -- the temporaries of the condition belong to the body around, and stay when the inner one is
    -- closed
    have hlocals : newLocals ((hoist condition state).1.2.flatMap Temp.setup) =
        ((hoist condition state).1.2.map Temp.place).reverse :=
        newLocals_setups (owned_hoist condition)
    have hopened : (opened condition state).frames =
        [] :: ((newLocals ((hoist condition state).1.2.flatMap Temp.setup) ++ scope) :: outer) := by
      rw [frames_opened, hframes, Frames.declareAll_cons, hlocals]
    obtain ⟨pieces, hsource, hcode, hclose, hafter⟩ := exists_pieces none body hopened
    refine ⟨.branch condition pieces location _ (hoist condition state).1.1
      (Piece.closingOf pieces []), ?_, ?_,
      ⟨prepares_setups (hoist condition state).1.2, ?_, rfl⟩, ?_⟩
    · rw [Piece.source, hsource]
    · rw [statement_conditional_eq, Piece.code, codes_append_closingOf hsource hcode hafter]
    · simpa only [flatten_cons] using hclose
    · rw [statement_conditional_eq]
      exact congrArg List.tail hafter
  | .function .., state, outer, scope, hframes | .retain .., state, outer, scope, hframes
  | .release .., state, outer, scope, hframes => by
    refine ⟨.simple _ _, rfl, rfl, ?_, ?_⟩
    · rw [statement]
      · rfl
      all_goals simp
    · rw [statement]
      · exact hframes
      all_goals simp

theorem exists_pieces (previous : Option Stmt) : ∀ (block : List Stmt) {state : Lowering}
    {outer : Frames} {scope : List Local}, state.frames = scope :: outer →
    ∃ pieces, Piece.sources pieces = block ∧
    Piece.codes pieces = (Lower.block previous block state).1 ∧
      Piece.CloseAll outer.flatten scope pieces ∧
      (Lower.block previous block state).2.frames = (Piece.addsAll pieces ++ scope) :: outer
  | [], state, outer, scope, hframes => by
    rw [Lower.block]
    exact ⟨[], rfl, rfl, trivial, hframes⟩
  | stmt :: block, state, outer, scope, hframes => by
    obtain ⟨piece, hsource, hcode, hcloses, hafter⟩ := exists_piece previous stmt hframes
    obtain ⟨pieces, hsources, hcodes, hclose, hend⟩ := exists_pieces (some stmt) block hafter
    refine ⟨piece :: pieces, ?_, ?_, ⟨hcloses, hclose⟩, ?_⟩
    · rw [Piece.sources, hsource, hsources]
    · rw [block_cons_eq, Piece.codes, hcode, hcodes]
    · rw [block_cons_eq, Piece.addsAll, append_assoc]
      exact hend

end

end Lower

/-! ### Functions -/

/-- **A function and its lowered form, which is taken apart into pieces.** The parameters that get
new values take references first. Then come the lowered statements, and at the end the releases of
the variables of the body, unless the function ends with a return. On every path through the lowered
form, the variables that bodies get on the way are released once on leaving these bodies, and so are
the parameters that have references; only the variable that is returned is not. -/
structure ReleasesOnce (function output : FunctionDef) (pieces : List Piece) : Prop where
  head : output = { function with body := output.body }
  sources : Piece.sources pieces = function.body
  body : output.body = prologueOf function ++
    (Piece.codes pieces ++ Piece.closingOf pieces (parametersOf function).reverse)
  closes : Piece.CloseAll [] (parametersOf function).reverse pieces
  once : ∀ {trace : List Stmt} {returned : Bool}, Path output.body trace returned →
    ∃ walked declared released ending,
      Walk [] (parametersOf function).reverse pieces walked declared released ending ∧
      trace = prologueOf function ++
        (walked ++ ending.closing (Piece.closingOf pieces (parametersOf function).reverse)) ∧
      returned = ending.returned ∧
      (released ++ ending.closing (Piece.closingOf pieces (parametersOf function).reverse) ++
        owed ending.kept).Perm (owed (declared ++ parametersOf function))

/-- At the end of a function the variables of its body are released as well. -/
theorem Ending.Balanced.perm {ending : Ending} {pieces : List Piece}
    {parameters declared : List Local} {released : List Stmt}
    (h : ending.Balanced parameters.reverse declared (Piece.addsAll pieces) released)
    (hends : ending.returned = false → endsWithResult (Piece.sources pieces) = false) :
    (released ++ ending.closing (Piece.closingOf pieces parameters.reverse) ++
      owed ending.kept).Perm (owed (declared ++ parameters)) := by
  have hparameters : (owed (declared ++ parameters.reverse)).Perm (owed (declared ++ parameters)) :=
    perm_owed ((reverse_perm parameters).append_left declared)
  refine .trans ?_ hparameters
  cases ending with
  | through =>
    rw [Ending.closing, Ending.kept, closingOf_of_not_endsWithResult (hends rfl),
      owed_append, owed_append, ← append_assoc]
    exact (append_nil _).symm ▸ h.append_right _
  | left =>
    rw [Ending.closing, append_nil]
    exact h

theorem straight_prologueOf (function : FunctionDef) :
    ∀ stmt ∈ prologueOf function, stmt.isStraight = true :=
  straight_forOwners (fun _ _ => rfl) _

/-- **The lowered form of a function releases once what it owns.** -/
theorem Context.exists_releasesOnce (context : Context) (function : FunctionDef) :
    ∃ pieces, ReleasesOnce function (context.lowerFunction function).1 pieces := by
  have hstart : (Lowering.start context function).frames = [(parametersOf function).reverse] := by
    rw [← parameters_eq_parametersOf]
    rfl
  obtain ⟨pieces, hsources, hcodes, hclose, hframes⟩ :=
    Lower.exists_pieces none function.body hstart
  rw [flatten_nil] at hclose
  have hprologue : prologueOf function =
      ((Lower.parameters function).filter (·.owned)).map fun v => .retain v.name v.location := by
    rw [prologueOf, forOwners_eq, ← parameters_eq_parametersOf,
      filter_congr fun v hv => isCounted_parameter hv]
  have hbody : (context.lowerFunction function).1.body = prologueOf function ++
      (Piece.codes pieces ++ Piece.closingOf pieces (parametersOf function).reverse) := by
    rw [Context.lowerFunction_eq, Lower.codes_append_closingOf hsources hcodes hframes, hprologue]
    rfl
  refine ⟨pieces, rfl, hsources, hbody, hclose, fun {trace returned} hpath => ?_⟩
  -- a path runs the prologue, and then it follows the pieces
  rw [hbody] at hpath
  obtain ⟨rest, rfl, hrest⟩ := hpath.of_append (straight_prologueOf function)
  obtain ⟨walked, declared, released, ending, hwalk, rfl, rfl⟩ :=
    Path.exists_walk pieces hclose (straight_closingOf _ _) hrest
  refine ⟨walked, declared, released, ending, hwalk, rfl, rfl, ?_⟩
  have hbalanced := hwalk.balanced hclose
  rw [append_nil] at hbalanced
  refine hbalanced.perm fun hreturned => ?_
  cases ending with
  | through => exact hwalk.not_endsWithResult hclose
  | left => cases hreturned

/-- A statement of a file and its lowered form. Functions release once what they own, and anything
else is left as it is. -/
inductive Discharges : Stmt → Stmt → Prop
  | function {function output : FunctionDef} {pieces : List Piece}
      (once : ReleasesOnce function output pieces) :
      Discharges function.toStmt output.toStmt
  | other {stmt : Stmt} (notFunction : stmt.toFunctionDef? = none) : Discharges stmt stmt

theorem Context.discharges_lower (context : Context) (program : Program) :
    Forall₂ Discharges program (context.lower program).1 := by
  induction program generalizing context with
  | nil => exact .nil
  | cons stmt program ih =>
    rw [Context.lower]
    cases hfunction : stmt.toFunctionDef? with
    | none => exact .cons (.other hfunction) (ih context)
    | some function =>
      obtain rfl := Stmt.toFunctionDef?_eq_some_iff.mp hfunction
      obtain ⟨pieces, honce⟩ := context.exists_releasesOnce function
      exact .cons (.function honce) (ih _)

end Refcount

open Refcount in
/-- **Lowered functions release once what they own, on every way out.** Each function of a program
can be taken apart with its lowered form such that returns, ends of bodies and all other statements
release what they have to, in the order that they have to; and on every path through the lowered
form, each variable that owns a reference, whether it was declared on the path, made for a condition
or passed as a parameter that gets a new value, is released once because the body that it belongs to
is left, unless it is the one that is returned. -/
theorem lower_discharges (program : Program) : List.Forall₂ Discharges program (lower program) :=
  (Context.ofProgram program).discharges_lower program

end FrontEnd
