import FrontEnd.Typing.Program

/-!
# The scope of a file

Declaring the functions of a file either fails or gives the one scope that their heads describe
(`Scope.ofFunctions_eq_ok`): the names of the functions, each with the signature that its
definition spells out, around which there are only the built-in names. The functions then have
names of their own, all types in their heads are basic ones, and `main` has the head that it has to
have.
-/

namespace FrontEnd

open List

theorem except_bind_eq_ok {ε α β : Type} {action : Except ε α} {next : α → Except ε β} {result : β}
    (h : (action >>= next) = .ok result) :
    ∃ value, action = .ok value ∧ next value = .ok result := by
  cases action with
  | error => cases h
  | ok value => exact ⟨value, rfl, h⟩

/-- A variable with a new name comes behind the others. -/
theorem Table.insert_of_lookup_eq_none {table : Table} {name : String}
    (h : table.lookup name = none) (new : Variable) :
    table.insert name new = table ++ [(name, new)] := by
  induction table with
  | nil => rfl
  | cons entry table ih =>
    obtain ⟨other, old⟩ := entry
    rw [lookup_cons] at h
    have hne : (name == other) = false := by
      cases hcase : name == other with
      | true => rw [hcase] at h; cases h
      | false => rfl
    rw [hne] at h
    rw [Table.insert, if_neg (by simpa using fun heq => (beq_eq_false_iff_ne.mp hne) heq.symm),
      ih h, cons_append]

/-- The types that every program has. -/
def Ty.basicNames : List String := ["Int", "String", "Bool"]

/-- The signature that the head of a definition spells out. -/
def FunctionDef.signature (function : FunctionDef) : Signature :=
  ⟨function.name, function.parameters.map fun parameter => .named parameter.type.text,
    function.returnType.map fun type => .named type.text⟩

/-- A function as the scope of a file knows it. -/
def FunctionDef.declared (function : FunctionDef) : Variable :=
  ⟨.value function.signature.toTy, some function.location, true, true⟩

/-- What the head of a function has to fulfil. -/
structure FunctionDef.WellFormed (function : FunctionDef) : Prop where
  /-- No built-in name is taken. -/
  free : Scope.builtin.own.table.lookup function.name = none
  main : function.name = "main" → function.returnType = none ∧ function.parameters = []
  distinct : (function.parameters.map (·.name.text)).Nodup
  basicParameters : ∀ parameter ∈ function.parameters, parameter.type.text ∈ Ty.basicNames
  basicReturn : ∀ type ∈ function.returnType, type.text ∈ Ty.basicNames

namespace Scope

variable {name : String} {found : Variable} {type : Ty} {functions : List FunctionDef}
  {scope : Scope} {function : FunctionDef}

/-- The scope of a file with functions that are all right. -/
def file (functions : List FunctionDef) : Scope :=
  { own :=
      { kind := .file
        depth := 1
        table := functions.map fun function => (function.name, function.declared) }
    enclosing := [builtin.own] }

/-- The built-in names, written out. -/
theorem builtin_own_table :
      builtin.own.table = [("Int", .builtin (.type .int)), ("String", .builtin (.type .string)),
        ("Bool", .builtin (.type .bool)), ("TRUE", .builtin (.value .bool)),
        ("FALSE", .builtin (.value .bool)),
      ("print", .builtin (.value (.function "print" [.string] none))),
      ("input", .builtin (.value (.function "input" [] (some .string))))] := rfl

/-- What a built-in name stands for: a type, a truth value, or one of the two functions. -/
theorem builtin_cases (h : builtin.own.table.lookup name = some found) :
    (name ∈ Ty.basicNames ∧ found.entity = .type (.named name)) ∨
      ((name = "TRUE" ∨ name = "FALSE") ∧ found.entity = .value .bool) ∨
      (name = "print" ∧ found.entity = .value (.function "print" [.string] none)) ∨
      (name = "input" ∧ found.entity = .value (.function "input" [] (some .string))) := by
  have hmem : (name, found) ∈ builtin.own.table := by
    obtain ⟨before, behind, htable, -⟩ := lookup_eq_some_iff.mp h
    rw [htable]
    exact mem_append_right _ mem_cons_self
  simp only [builtin_own_table, mem_cons, Prod.mk.injEq, not_mem_nil, or_false] at hmem
  rcases hmem with ⟨rfl, rfl⟩ | ⟨rfl, rfl⟩ | ⟨rfl, rfl⟩ | ⟨rfl, rfl⟩ | ⟨rfl, rfl⟩
    | ⟨rfl, rfl⟩ | ⟨rfl, rfl⟩
  · exact .inl ⟨by simp [Ty.basicNames], rfl⟩
  · exact .inl ⟨by simp [Ty.basicNames], rfl⟩
  · exact .inl ⟨by simp [Ty.basicNames], rfl⟩
  · exact .inr (.inl ⟨.inl rfl, rfl⟩)
  · exact .inr (.inl ⟨.inr rfl, rfl⟩)
  · exact .inr (.inr (.inl ⟨rfl, rfl⟩))
  · exact .inr (.inr (.inr ⟨rfl, rfl⟩))

/-- A built-in name that stands for a type stands for the basic type of that name. -/
theorem builtin_type (h : builtin.own.table.lookup name = some found)
    (hentity : found.entity = .type type) :
    type = .named name ∧ name ∈ Ty.basicNames := by
  rcases builtin_cases h with ⟨hbasic, hfound⟩ | ⟨-, hfound⟩ | ⟨-, hfound⟩ | ⟨-, hfound⟩
  · rw [hfound] at hentity
    cases hentity
    exact ⟨rfl, hbasic⟩
  · rw [hfound] at hentity; cases hentity
  · rw [hfound] at hentity; cases hentity
  · rw [hfound] at hentity; cases hentity

theorem lookup_file (functions : List FunctionDef) (name : String) :
    (file functions).lookup name =
      match functions.find? (·.name = name) with
      | some function => some ⟨function.declared, .file, 1⟩
      | none => (builtin.own.table.lookup name).map fun found => ⟨found, .builtin, 0⟩ := by
  have htable : (file functions).own.table.lookup name =
      (functions.find? (·.name = name)).map FunctionDef.declared := by
    simp only [file]
    induction functions with
    | nil => rfl
    | cons function functions ih =>
      rw [map_cons, lookup_cons, find?_cons]
      by_cases h : function.name = name
      · simp [h]
      · have hne : (name == function.name) = false := by simpa using fun heq => h heq.symm
        simp only [hne, h, decide_false]
        exact ih
  simp only [lookup, levels, findSome?_cons, htable]
  cases functions.find? (·.name = name) with
  | some => rfl
  | none =>
    simp only [file, findSome?_cons, Option.map_none, findSome?_nil]
    cases builtin.own.table.lookup name <;> rfl

/-- The only types in a file are the built-in ones. -/
theorem typeNamed_file {name : Name} (h : (file functions).typeNamed name = .ok type) :
    type = .named name.text ∧ name.text ∈ Ty.basicNames := by
  obtain ⟨binding, hresolve, h⟩ := except_bind_eq_ok h
  have hentity : binding.found.entity = .type type := by
    cases hcase : binding.found.entity with
    | type => rw [hcase] at h; cases h; rfl
    | value => rw [hcase] at h; cases h
  unfold resolve at hresolve
  rw [lookup_file] at hresolve
  cases hfind : functions.find? (·.name = name.text) with
  | some =>
    rw [hfind] at hresolve
    simp only at hresolve
    split at hresolve
    · cases hresolve; cases hentity
    · cases hresolve
  | none =>
    rw [hfind] at hresolve
    simp only at hresolve
    cases hlookup : builtin.own.table.lookup name.text with
    | none => rw [hlookup] at hresolve; cases hresolve
    | some =>
      rw [hlookup] at hresolve
      simp only [Option.map_some] at hresolve
      split at hresolve
      · cases hresolve; exact builtin_type hlookup hentity
      · cases hresolve

/-- The types of the parameters of a head are the ones that it spells out. -/
theorem mapM_typeNamed_file {parameters : List Parameter} {types : List Ty}
    (h : (parameters.mapM fun parameter => (file functions).typeNamed parameter.type) = .ok types) :
    types = parameters.map (fun parameter => .named parameter.type.text) ∧
      ∀ parameter ∈ parameters, parameter.type.text ∈ Ty.basicNames := by
  induction parameters generalizing types with
  | nil => cases h; simp
  | cons parameter parameters ih =>
    rw [mapM_cons] at h
    obtain ⟨type, htype, h⟩ := except_bind_eq_ok h
    obtain ⟨rest, hrest, h⟩ := except_bind_eq_ok h
    cases h
    obtain ⟨rfl, hbasic⟩ := typeNamed_file htype
    obtain ⟨rfl, hall⟩ := ih hrest
    simpa using ⟨hbasic, hall⟩

/-- The name of a declared function is free in its file. -/
theorem ensureFree_file {location : Location}
    (h : (file functions).ensureFree name location = .ok ()) :
    (∀ function ∈ functions, function.name ≠ name) ∧ builtin.own.table.lookup name = none := by
  unfold ensureFree at h
  rw [lookup_file] at h
  cases hfind : functions.find? (·.name = name) with
  | some => rw [hfind] at h; simp [file] at h
  | none =>
    rw [hfind] at h
    cases hlookup : builtin.own.table.lookup name with
    | some => rw [hlookup] at h; simp [file] at h
    | none => exact ⟨by simpa using find?_eq_none.mp hfind, rfl⟩

/-- What declaring a function amounts to, its guards one after the other. -/
theorem declareFunction_eq_ok {after : Scope} (h : scope.declareFunction function = .ok after) :
    scope.ensureFree function.name function.location = .ok () ∧
      (function.name = "main" → function.returnType = none ∧ function.parameters = []) ∧
      (function.parameters.map (·.name.text)).Nodup ∧
      ∃ parameters returns,
      (function.parameters.mapM fun parameter => scope.typeNamed parameter.type) =
          .ok parameters ∧ function.returnType.mapM scope.typeNamed = .ok returns ∧
          after = scope.declare function.name ⟨.value (.function function.name parameters returns),
            some function.location, true, true⟩ := by
  unfold declareFunction at h
  obtain ⟨_, hfree, h⟩ := except_bind_eq_ok h
  refine ⟨hfree, ?_⟩
  have hmain : function.name = "main" → function.returnType = none ∧ function.parameters = [] := by
    intro hname
    rw [if_pos hname] at h
    cases hreturns : function.returnType with
    | some => rw [hreturns] at h; cases h
    | none =>
      cases hparameters : function.parameters with
      | nil => exact ⟨rfl, rfl⟩
      | cons => rw [hreturns, hparameters] at h; cases h
  refine ⟨hmain, ?_⟩
  by_cases hname : function.name = "main"
  -- the main function has no parameters that could clash
  · obtain ⟨hreturns, hparameters⟩ := hmain hname
    rw [if_pos hname] at h
    rw [hreturns, hparameters] at h ⊢
    cases h
    exact ⟨nodup_nil, [], none, rfl, rfl, rfl⟩
  · rw [if_neg hname] at h
    cases hfind : (function.parameters.map (·.name.text)).find? fun name =>
        1 < (function.parameters.map (·.name.text)).count name with
    | some => simp only [hfind] at h; cases h
    | none =>
      simp only [hfind] at h
      obtain ⟨parameters, hparameters, h⟩ := except_bind_eq_ok h
      obtain ⟨returns, hreturns, h⟩ := except_bind_eq_ok h
      cases h
      refine ⟨nodup_iff_count.mpr fun name => ?_, parameters, returns, hparameters, hreturns, rfl⟩
      by_cases hmem : name ∈ function.parameters.map (·.name.text)
      · simpa using find?_eq_none.mp hfind name hmem
      · rw [count_eq_zero.mpr hmem]
        exact Nat.zero_le 1

/-- Declaring one more function. -/
theorem declareFunction_file (h : (file functions).declareFunction function = .ok scope) :
    scope = file (functions ++ [function]) ∧ function.WellFormed ∧ ∀ other ∈ functions,
      other.name ≠ function.name := by
  obtain ⟨hfree, hmain, hdistinct, parameters, returns, hparameters, hreturns, rfl⟩ :=
    declareFunction_eq_ok h
  obtain ⟨hnew, hbuiltin⟩ := ensureFree_file hfree
  obtain ⟨rfl, hbasic⟩ := mapM_typeNamed_file hparameters
  have hreturn : returns = function.returnType.map (fun type => .named type.text) ∧
      ∀ type ∈ function.returnType, type.text ∈ Ty.basicNames := by
    cases hcase : function.returnType with
    | none => rw [hcase] at hreturns; cases hreturns; simp
    | some type =>
      rw [hcase] at hreturns
      simp only [Option.mapM_some, Functor.map, Except.map] at hreturns
      cases htype : (file functions).typeNamed type with
      | error => rw [htype] at hreturns; cases hreturns
      | ok =>
        rw [htype] at hreturns
        cases hreturns
        simpa using typeNamed_file htype
  obtain ⟨rfl, hbasicReturn⟩ := hreturn
  refine ⟨?_, ⟨hbuiltin, hmain, hdistinct, hbasic, hbasicReturn⟩, hnew⟩
  -- the name is new, so the entry goes to the end of the table
  have hinsert : (file functions).own.table.insert function.name function.declared =
      (file (functions ++ [function])).own.table := by
    have hlookup : (file functions).own.table.lookup function.name = none := by
      refine lookup_eq_none_iff.mpr fun entry hentry => ?_
      obtain ⟨other, hother, rfl⟩ := mem_map.mp hentry
      exact bne_iff_ne.mpr (hnew other hother).symm
    rw [Table.insert_of_lookup_eq_none hlookup]
    simp [file]
  calc (file functions).declare function.name function.declared
      = { own := { (file functions).own with
            table := (file functions).own.table.insert function.name function.declared }
          enclosing := [builtin.own] } := rfl
    _ = file (functions ++ [function]) := by rw [hinsert]; rfl

/-- **The scope of a file.** Declaring the functions of a file gives the scope that their heads
describe, if it succeeds, and then all of them are well-formed and have different names. -/
theorem ofFunctions_eq_ok (h : ofFunctions functions = .ok scope) :
    scope = file functions ∧ (∀ function ∈ functions, function.WellFormed) ∧
      (functions.map FunctionDef.name).Nodup := by
  -- the functions declared so far come in front of those that are left
  have hloop : ∀ (rest done : List FunctionDef),
      rest.foldlM declareFunction (file done) = .ok scope →
      scope = file (done ++ rest) ∧ (∀ function ∈ rest, function.WellFormed) ∧
      (rest.map FunctionDef.name).Nodup ∧
        ∀ function ∈ rest, ∀ other ∈ done, other.name ≠ function.name := by
    intro rest
    induction rest with
    | nil =>
      intro done h
      cases h
      simp
    | cons function rest ih =>
      intro done h
      rw [foldlM_cons] at h
      obtain ⟨next, hfirst, h⟩ := except_bind_eq_ok h
      obtain ⟨rfl, hwell, hnew⟩ := declareFunction_file hfirst
      obtain ⟨rfl, hall, hnodup, hdone⟩ := ih _ h
      refine ⟨by rw [append_assoc]; rfl, ?_, ?_, ?_⟩
      · exact forall_mem_cons.mpr ⟨hwell, hall⟩
      · rw [map_cons, nodup_cons]
        refine ⟨fun hmem => ?_, hnodup⟩
        obtain ⟨other, hother, hname⟩ := mem_map.mp hmem
        exact hdone other hother function (by simp) hname.symm
      · refine forall_mem_cons.mpr ⟨hnew, fun later hlater other hother => ?_⟩
        exact hdone later hlater other (mem_append_left _ hother)
  obtain ⟨hscope, hwell, hnodup, -⟩ := hloop functions [] h
  exact ⟨hscope, hwell, hnodup⟩

end Scope

/-- A program whose functions are declared has a function `main`. -/
theorem Program.fileScope_eq_ok {functions : List FunctionDef} {scope : Scope}
    (h : Program.fileScope functions = .ok scope) :
    (∃ function ∈ functions, function.name = "main") ∧ Scope.ofFunctions functions = .ok scope := by
  unfold Program.fileScope at h
  split at h
  · next hmain => exact ⟨by simpa using hmain, h⟩
  · cases h

end FrontEnd
