import FrontEnd.Proofs.Typing.Allowed
import Mathlib.Data.List.Nodup

/-!
# What names stand for, as they are written

What a name stands for at a place of a program can be read off the text: it is the newest variable
of the name in the innermost body around that has one (`Bindings.lookup`). A variable is told from
all others by its name and the place where it was declared. `sitesOfAll` goes through a program and
says for each statement which variables can be seen from it.

A body has no two variables of one name if the rules for statements are kept
(`AllowedAll.sites_distinct`). So there is only one reason why a name may fail to stand for a
variable that can be seen: a body further in has a variable of the same name
(`Bindings.lookup_or_hidden`).
-/

namespace FrontEnd

open List

/-! ### Bindings -/

/-- The variables that can be seen from a place of a program, each with its name and the place of
its declaration: a list for each body around, innermost and newest first. -/
abbrev Bindings := List (List (String × Location))

namespace Bindings

variable {bindings : Bindings} {placed : String × Location}

/-- The variable that a name stands for. -/
def lookup (bindings : Bindings) (name : String) : Option (String × Location) :=
  bindings.flatten.find? (·.1 = name)

/-- Adds a variable to the innermost body. -/
def declare (bindings : Bindings) (placed : String × Location) : Bindings :=
  match bindings with
  | [] => []
  | body :: around => (placed :: body) :: around

/-- What can be seen behind a statement. -/
def behind (bindings : Bindings) : Stmt → Bindings
  | .declaration _ name location => bindings.declare (name, location)
  | _ => bindings

/-- What can be seen behind some statements of a body. -/
def behindAll (bindings : Bindings) (block : List Stmt) : Bindings :=
  block.foldl behind bindings

/-- A variable that can be seen, but not by its name: a body further in has another one of the
name. -/
def Hidden (bindings : Bindings) (placed : String × Location) : Prop :=
  ∃ inner outer : Bindings, bindings = inner ++ outer ∧ placed ∈ outer.flatten ∧
    ∃ other, inner.lookup placed.1 = some other

/-- No body has two variables of one name. -/
def Distinct (bindings : Bindings) : Prop :=
  ∀ body ∈ bindings, (body.map Prod.fst).Nodup

theorem lookup_cons (body : List (String × Location)) (around : Bindings) (name : String) :
    lookup (body :: around) name = (body.find? (·.1 = name)).or (lookup around name) := by
  rw [lookup, flatten_cons, find?_append]
  rfl

theorem find?_of_nodup {body : List (String × Location)} (h : (body.map Prod.fst).Nodup)
    (hmem : placed ∈ body) :
    body.find? (·.1 = placed.1) = some placed := by
  cases hfound : body.find? (·.1 = placed.1) with
  | none => exact absurd (decide_eq_true rfl) (find?_eq_none.mp hfound placed hmem)
  | some other =>
    have hname : other.1 = placed.1 := by simpa using find?_some hfound
    rw [inj_on_of_nodup_map h (mem_of_find?_eq_some hfound) hmem hname]

/-- The variables of the innermost body can be seen by their names. -/
theorem lookup_of_mem_headD (h : bindings.Distinct) (hmem : placed ∈ bindings.headD []) :
    bindings.lookup placed.1 = some placed := by
  cases bindings with
  | nil => cases hmem
  | cons body =>
    rw [lookup_cons, find?_of_nodup (h body mem_cons_self) hmem]
    rfl

/-- **Who can be seen is seen by its name, or hidden by a body further in.** -/
theorem lookup_or_hidden (h : bindings.Distinct) (hmem : placed ∈ bindings.flatten) :
    bindings.lookup placed.1 = some placed ∨ bindings.Hidden placed := by
  induction bindings with
  | nil => cases hmem
  | cons body around ih =>
    by_cases hbody : placed ∈ body
    · exact .inl (lookup_of_mem_headD h hbody)
    have haround : placed ∈ around.flatten := (mem_append.mp hmem).resolve_left hbody
    rw [lookup_cons]
    cases hfound : body.find? (·.1 = placed.1) with
    | some other =>
      exact .inr ⟨[body], around, rfl, haround, other, by rw [lookup_cons, hfound]; rfl⟩
    | none =>
      rw [Option.none_or]
      refine (ih (fun other hother => h other (mem_cons_of_mem _ hother)) haround).imp_right ?_
      rintro ⟨inner, outer, rfl, houter, other, hother⟩
      exact ⟨body :: inner, outer, rfl, houter, other, by
        rw [lookup_cons, hfound, Option.none_or, hother]⟩

theorem Distinct.declare (h : bindings.Distinct)
    (hnew : ∀ other ∈ bindings.headD [], other.1 ≠ placed.1) :
    (bindings.declare placed).Distinct := by
  cases bindings with
  | nil => exact h
  | cons body =>
    rw [Distinct, Bindings.declare, forall_mem_cons, map_cons, nodup_cons]
    refine ⟨⟨fun hmem => ?_, h body mem_cons_self⟩, fun other hother =>
      h other (mem_cons_of_mem _ hother)⟩
    obtain ⟨other, hother, hname⟩ := mem_map.mp hmem
    exact hnew other hother hname

theorem behindAll_append (bindings : Bindings) (first second : List Stmt) :
    bindings.behindAll (first ++ second) = (bindings.behindAll first).behindAll second :=
  foldl_append

/-- The bodies around do not change. -/
theorem tail_behindAll (bindings : Bindings) (block : List Stmt) :
    (bindings.behindAll block).tail = bindings.tail := by
  induction block generalizing bindings with
  | nil => rfl
  | cons stmt block ih =>
    refine (ih (bindings.behind stmt)).trans ?_
    cases stmt with
    | declaration => cases bindings <;> rfl
    | expression | assignment | conditional | result | function | retain | release => rfl

end Bindings

/-! ### Sites -/

/-- A statement of a program, where it stands. -/
structure Site where
  /-- The variables that can be seen from it. -/
  bindings : Bindings
  stmt : Stmt
  /-- What comes behind it in the same body. -/
  rest : List Stmt

mutual

/-- A statement with `rest` behind it, and all statements in it. -/
def sitesOf (bindings : Bindings) (rest : List Stmt) : Stmt → List Site
  | .conditional condition body location =>
    ⟨bindings, .conditional condition body location, rest⟩ :: sitesOfAll ([] :: bindings) [] body
  | .function name parameters returnType body location =>
    ⟨bindings, .function name parameters returnType body location, rest⟩ ::
      sitesOfAll ((parameters.map fun parameter =>
        (parameter.name.text, parameter.name.location)).reverse :: bindings) [] body
  | stmt => [⟨bindings, stmt, rest⟩]

/-- The statements of a body, or of a part of it that has `following` behind it, and all statements
in them. -/
def sitesOfAll (bindings : Bindings) (following : List Stmt) : List Stmt → List Site
  | [] => []
  | stmt :: block =>
    sitesOf bindings (block ++ following) stmt ++ sitesOfAll (bindings.behind stmt) following block

end

/-- All statements of a program. -/
def Program.sites (program : Program) : List Site :=
  sitesOfAll [] [] program

theorem sitesOfAll_append (bindings : Bindings) (following first second : List Stmt) :
    sitesOfAll bindings following (first ++ second) =
        sitesOfAll bindings (second ++ following) first ++
        sitesOfAll (bindings.behindAll first) following second := by
  induction first generalizing bindings with
  | nil => rw [nil_append, sitesOfAll, nil_append]; rfl
  | cons stmt first ih =>
    rw [cons_append, sitesOfAll, sitesOfAll, ih, append_assoc, append_assoc]
    rfl

/-- The value that a function returns if nothing but releases comes in front of the return. -/
def returned? : List Stmt → Option Expr
  | .release _ _ :: rest => returned? rest
  | .result value _ :: _ => some value
  | _ => none

namespace Execution

/-! ### Variables of a run -/

section Env

variable {ρ : Type}

/-- What tells a slot from all others of its function. -/
def Slot.placed (slot : Slot ρ) : String × Location :=
  (slot.name, slot.location)

/-- The variables of an environment. -/
def Env.places (env : Env ρ) : Bindings :=
  env.map (·.map Slot.placed)

theorem Env.places_declare (env : Env ρ) (slot : Slot ρ) :
    (env.declare slot).places = env.places.declare slot.placed := by
  cases env <;> rfl

theorem Env.places_update (env : Env ρ) (name : String) (value : Value ρ) :
    (env.update name value).places = env.places :=
  Env.map_update Slot.placed (fun _ _ => rfl) name value env

theorem Env.flatten_places (env : Env ρ) : env.places.flatten = env.flatten.map Slot.placed :=
  map_flatten.symm

theorem Env.lookup_places (env : Env ρ) (name : String) :
    env.places.lookup name = (env.find name).map Slot.placed := by
  rw [Bindings.lookup, flatten_places, find?_map]
  rfl

end Env

/-! ### Sites of what is allowed -/

section Rules

variable {globals : String → Option Entity} {returns : Option Ty}

mutual

/-- What is left behind a statement is what can be seen from there. -/
theorem Allowed.places_eq : ∀ {stmt : Stmt}
    {env after : Env Data}, Allowed globals returns stmt env after →
    after.places = env.places.behind stmt
  | .expression .., env, after, h => by rw [h.2]; rfl
  | .declaration .., env, after, h => by rw [h.2.2, Env.places_declare]; rfl
  | .assignment .., env, after, h => by
    obtain ⟨slot, -, -, rfl⟩ := h
    exact Env.places_update env _ _
  | .conditional condition body location, env, after, h => by
    rw [Allowed] at h
    obtain ⟨-, inner, hinner, rfl⟩ := h
    have hplaces := congrArg List.tail hinner.places_eq
    rw [Bindings.tail_behindAll, Env.places, ← map_tail] at hplaces
    exact hplaces
  | .result .., env, after, h => by rw [h.2]; rfl
  | .function .., env, after, h => h.elim
  | .retain .., env, after, h | .release .., env, after, h => by rw [show after = env from h]; rfl

theorem AllowedAll.places_eq : ∀ {block : List Stmt} {env after : Env Data},
    AllowedAll globals returns block env after → after.places = env.places.behindAll block
  | [], env, after, h => by
    rw [AllowedAll] at h
    rw [h]
    rfl
  | stmt :: block, env, after, h => by
    rw [AllowedAll] at h
    obtain ⟨middle, hstmt, hblock⟩ := h
    rw [hblock.places_eq, hstmt.places_eq]
    rfl

end

/-- A declaration is the only statement that adds a variable, and its name is new. -/
theorem Allowed.distinct {stmt : Stmt} {env after : Env Data}
    (h : Allowed globals returns stmt env after) (henv : env.places.Distinct) :
    after.places.Distinct := by
  rw [h.places_eq]
  cases stmt with
  | declaration =>
    refine henv.declare fun other hother => ?_
    cases env with
    | nil => cases hother
    | cons =>
      obtain ⟨slot, hslot, rfl⟩ := mem_map.mp hother
      exact h.1.new slot hslot
  | expression | assignment | conditional | result | function | retain | release => exact henv

mutual

theorem Allowed.sites_distinct : ∀ {stmt : Stmt}
    {env after : Env Data}, Allowed globals returns stmt env after → env.places.Distinct →
    ∀ (rest : List Stmt), ∀ site ∈ sitesOf env.places rest stmt, site.bindings.Distinct
  | .conditional condition body location, env, after, h, henv, rest, site, hsite => by
    rw [Allowed] at h
    obtain ⟨-, inner, hinner, -⟩ := h
    rw [sitesOf, mem_cons] at hsite
    rcases hsite with rfl | hsite
    · exact henv
    · have hopened : Env.places ([] :: env) = [] :: env.places := rfl
      refine hinner.sites_distinct ?_ [] site (hopened ▸ hsite)
      rw [hopened, Bindings.Distinct, forall_mem_cons]
      exact ⟨nodup_nil, henv⟩
  | .function .., _, _, h, _, _, _, _ => h.elim
  | .expression .., env, _, _, henv, rest, site, hsite
  | .declaration .., env, _, _, henv, rest, site, hsite
  | .assignment .., env, _, _, henv, rest, site, hsite
  | .result .., env, _, _, henv, rest, site, hsite
  | .retain .., env, _, _, henv, rest, site, hsite
  | .release .., env, _, _, henv, rest, site, hsite => by
    rw [sitesOf, mem_singleton] at hsite
    · rw [hsite]
      exact henv
    all_goals simp

/-- **Where the rules are kept, no body has two variables of one name**, at no place of it. -/
theorem AllowedAll.sites_distinct : ∀ {block : List Stmt} {env after : Env Data},
    AllowedAll globals returns block env after → env.places.Distinct →
    ∀ (following : List Stmt), ∀ site ∈ sitesOfAll env.places following block,
    site.bindings.Distinct
  | [], _, _, _, _, _, site, hsite => by cases hsite
  | stmt :: block, env, after, h, henv, following, site, hsite => by
    rw [AllowedAll] at h
    obtain ⟨middle, hstmt, hblock⟩ := h
    rw [sitesOfAll, mem_append] at hsite
    rcases hsite with hsite | hsite
    · exact hstmt.sites_distinct henv _ site hsite
    · rw [← hstmt.places_eq] at hsite
      exact hblock.sites_distinct (hstmt.distinct henv) following site hsite

end

end Rules

end Execution

end FrontEnd
