import FrontEnd.Proofs.Typing.Allowed

/-!
# Programs that keep the rules

The rules for a whole file: its functions have proper heads and different names, there is a function
`main`, and the body of each function is allowed behind its parameters (`AllowedFile`).

A file that was checked keeps the rules (`allowedFile_of_checkedFile`), which follows from what a
successful check says. For the other half, each part of a check is shown to succeed: here that the
heads can be declared (`fileScope_of_allowedFile`), and that bodies can be checked behind their
parameters (`agree_function`).
-/

namespace FrontEnd

open List Scope

namespace Scope

variable {functions : List FunctionDef} {name : String}

/-! ### Heads of functions -/

theorem ensureFree_file_of_new (location : Location)
    (hnew : ∀ function ∈ functions, function.name ≠ name)
    (hbuiltin : builtin.own.table.lookup name = none) :
    (file functions).ensureFree name location = .ok () := by
  have hfind : functions.find? (·.name = name) = none := by
    simpa using hnew
  unfold ensureFree
  rw [lookup_file, hfind, hbuiltin]
  rfl

theorem lookup_builtin_of_basic (h : name ∈ Ty.basicNames) :
    builtin.own.table.lookup name = some (.builtin (.type (.named name))) := by
  simp only [Ty.basicNames, mem_cons, not_mem_nil, or_false] at h
  rcases h with rfl | rfl | rfl <;> rfl

/-- A function has no name that is built in. -/
theorem find?_eq_none_of_builtin (hwell : ∀ function ∈ functions, function.WellFormed)
    {found : Variable} (h : builtin.own.table.lookup name = some found) :
    functions.find? (·.name = name) = none := by
  refine find?_eq_none.mpr fun function hmem hname => ?_
  rw [← of_decide_eq_true hname, (hwell function hmem).free] at h
  cases h

theorem typeNamed_file_of_basic {name : Name} (hwell : ∀ function ∈ functions, function.WellFormed)
    (hname : name.text ∈ Ty.basicNames) :
    (file functions).typeNamed name = .ok (.named name.text) := by
  have hlookup := lookup_builtin_of_basic hname
  have hresolve :
      (file functions).resolve name = .ok ⟨.builtin (.type (.named name.text)), .builtin, 0⟩ := by
    unfold resolve
    rw [lookup_file, find?_eq_none_of_builtin hwell hlookup, hlookup]
    rfl
  rw [typeNamed, hresolve]
  rfl

/-- A head that is well-formed and whose name is new can be declared. -/
theorem declareFunction_file_of_wellFormed {function : FunctionDef}
    (hall : ∀ function ∈ functions, function.WellFormed) (hwell : function.WellFormed)
    (hnew : ∀ other ∈ functions, other.name ≠ function.name) :
    ∃ scope, (file functions).declareFunction function = .ok scope := by
  have hfree := ensureFree_file_of_new function.location hnew hwell.free
  have hdistinct : (function.parameters.map (·.name.text)).find? (fun name =>
      1 < (function.parameters.map (·.name.text)).count name) = none := by
    refine find?_eq_none.mpr fun name _ => ?_
    simpa using nodup_iff_count.mp hwell.distinct name
  have hparameters :
      (function.parameters.mapM fun parameter => (file functions).typeNamed parameter.type) =
      .ok (function.parameters.map fun parameter => .named parameter.type.text) := by
    have hbasic := hwell.basicParameters
    generalize function.parameters = parameters at hbasic
    induction parameters with
    | nil => rfl
    | cons parameter parameters ih =>
      rw [forall_mem_cons] at hbasic
      rw [mapM_cons, typeNamed_file_of_basic hall hbasic.1, ih hbasic.2]
      rfl
  have hreturns : function.returnType.mapM (file functions).typeNamed =
      .ok (function.returnType.map fun type => .named type.text) := by
    have hbasic := hwell.basicReturn
    cases hcase : function.returnType with
    | none => rfl
    | some type =>
      rw [Option.mapM_some, typeNamed_file_of_basic hall (hbasic type hcase)]
      rfl
  unfold declareFunction
  by_cases hmain : function.name = "main"
  · obtain ⟨hnone, hempty⟩ := hwell.main hmain
    rw [hfree, if_pos hmain, hnone, hempty]
    exact ⟨_, rfl⟩
  · rw [hfree, if_neg hmain]
    simp only [hdistinct, hparameters, hreturns]
    exact ⟨_, rfl⟩

/-- **The heads of a file can be declared** if they are well-formed and have different names. -/
theorem ofFunctions_of_wellFormed (hwell : ∀ function ∈ functions, function.WellFormed)
    (hnodup : (functions.map (·.name)).Nodup) : ofFunctions functions = .ok (file functions) := by
  -- the functions declared so far come in front of those that are left
  have hloop : ∀ (rest done : List FunctionDef), (∀ function ∈ done ++ rest, function.WellFormed) →
      ((done ++ rest).map (·.name)).Nodup →
      ∃ scope, rest.foldlM declareFunction (file done) = .ok scope := by
    intro rest
    induction rest with
    | nil => exact fun done _ _ => ⟨file done, rfl⟩
    | cons function rest ih =>
      intro done hwell hnodup
      have hnew : ∀ other ∈ done, other.name ≠ function.name := by
        intro other hother heq
        rw [map_append, nodup_append] at hnodup
        exact hnodup.2.2 other.name (mem_map_of_mem hother) function.name (by simp) heq
      obtain ⟨scope, hfirst⟩ := declareFunction_file_of_wellFormed
        (fun other hother => hwell other (mem_append_left _ hother)) (hwell function (by simp)) hnew
      obtain ⟨rfl, -, -⟩ := declareFunction_file hfirst
      obtain ⟨scope, hrest⟩ :=
        ih (done ++ [function]) (by simpa using hwell) (by simpa using hnodup)
      refine ⟨scope, ?_⟩
      rw [foldlM_cons, hfirst]
      exact hrest
  obtain ⟨scope, hscope⟩ := hloop functions [] hwell hnodup
  have hdeclared : ofFunctions functions = .ok scope := hscope
  rw [hdeclared, (ofFunctions_eq_ok hdeclared).1]

end Scope

/-! ### Files -/

namespace Execution

open Direct (Tier Stack)

section Names

variable {functions checked : List FunctionDef}

/-- What the names of a file stand for. -/
abbrev globals (functions : List FunctionDef) : String → Option Entity :=
  (Stack.ofScope (file functions)).entity

theorem globals_eq (functions : List FunctionDef) (name : String) : globals functions name =
      match functions.find? (·.name = name) with
      | some function => some (.value function.signature.toTy)
      | none => (builtin.own.table.lookup name).map (·.entity) := by
  simp only [globals, Stack.entity, Stack.find_ofScope, lookup_file]
  cases functions.find? (·.name = name) with
  | some => rfl
  | none => cases builtin.own.table.lookup name <;> rfl

/-- What a name of a file stands for: a function of the file, or what is built in. -/
theorem globals_cases {name : String} {entity : Entity} (h : globals functions name = some entity) :
    (∃ function, functions.find? (·.name = name) = some function ∧
      entity = .value function.signature.toTy) ∨
    (name ∈ Ty.basicNames ∧ entity = .type (.named name)) ∨
    ((name = "TRUE" ∨ name = "FALSE") ∧ entity = .value .bool) ∨
    (name = "print" ∧ entity = .value (.function "print" [.string] none)) ∨
    (name = "input" ∧ entity = .value (.function "input" [] (some .string))) := by
  rw [globals_eq] at h
  cases hfind : functions.find? (·.name = name) with
  | some function =>
    rw [hfind] at h
    cases h
    exact .inl ⟨function, rfl, rfl⟩
  | none =>
    rw [hfind] at h
    obtain ⟨found, hlookup, rfl⟩ := Option.map_eq_some_iff.mp h
    exact .inr (builtin_cases hlookup)

/-- Functions return values of basic types. -/
theorem basic_of_globals (name : String) (signature : Signature)
    (hglobal : globals functions name = some (.value signature.toTy)) :
    ∀ type ∈ signature.returns, ∃ basic, type = Ty.named basic := by
  intro type htype
  rcases globals_cases hglobal with ⟨function, -, heq⟩ | ⟨-, heq⟩ | ⟨-, heq⟩ | ⟨-, heq⟩ | ⟨-, heq⟩
  · cases signature
    cases heq
    obtain ⟨name, -, rfl⟩ := Option.map_eq_some_iff.mp htype
    exact ⟨name.text, rfl⟩
  · cases heq
  · cases signature
    cases heq
  · cases signature
    cases heq
    cases htype
  · cases signature
    cases heq
    cases htype
    exact ⟨"String", rfl⟩

/-- A check changes nothing about a function but its body. -/
theorem sameHead_checked {function checked : FunctionDef}
    (h : Direct.Checked functions function checked) :
    SameHead function checked := by
  obtain ⟨inner, -, rfl⟩ := h.body
  exact ⟨rfl, rfl, rfl⟩

theorem nodup_checked (h : Direct.CheckedFile functions checked) :
    (checked.map (·.name)).Nodup := by
  have hnames : checked.map (·.name) = functions.map (·.name) := by
    have heach := h.each.imp fun _ _ hchecked => (sameHead_checked hchecked).name
    rw [← forall₂_eq_eq_eq, forall₂_map_left_iff, forall₂_map_right_iff]
    exact heach.flip
  rw [hnames]
  exact h.nodup

end Names

/-- The variables that the body of a function starts with: its parameters, which have values. -/
def startOf (function : FunctionDef) : Env Data :=
  Env.ofArguments function.parameters (function.parameters.map fun _ => filled)

/-- The rules for a function of a file. -/
structure AllowedFunction (functions : List FunctionDef) (function : FunctionDef) : Prop where
  body : ∃ after,
    AllowedAll (globals functions) function.signature.returns function.body (startOf function)
    after
  ends : function.returnType.isSome → endsWithResult function.body = true
  /-- The parameters hide no name of the file. -/
  free : ∀ parameter ∈ function.parameters, globals functions parameter.name.text = none

/-- The rules for a file. -/
structure AllowedFile (functions : List FunctionDef) : Prop where
  wellFormed : ∀ function ∈ functions, function.WellFormed
  nodup : (functions.map (·.name)).Nodup
  main : ∃ function ∈ functions, function.name = "main"
  each : ∀ function ∈ functions, AllowedFunction functions function

section Files

variable {functions : List FunctionDef} {function : FunctionDef}

theorem initialized_of_find_file {name : String} {found : Variable} {kind : ScopeKind}
    (h : (Stack.ofScope (file functions)).find name = some (found, kind)) :
    found.initialized = true := by
  rw [Stack.find_ofScope, lookup_file] at h
  cases hfind : functions.find? (·.name = name) with
  | some => rw [hfind] at h; cases h; rfl
  | none =>
    rw [hfind] at h
    obtain ⟨binding, hlookup, heq⟩ := Option.map_eq_some_iff.mp h
    obtain ⟨builtin, hbuiltin, rfl⟩ := Option.map_eq_some_iff.mp hlookup
    cases heq
    obtain ⟨before, behind, htable, -⟩ := lookup_eq_some_iff.mp hbuiltin
    have hall : ∀ entry ∈ Scope.builtin.own.table, entry.2.initialized = true := by
      rw [builtin_own_table]
      decide
    exact hall (name, builtin) (by rw [htable]; exact mem_append_right _ mem_cons_self)

theorem startOf_eq (function : FunctionDef) :
    startOf function = [(function.parameters.map fun parameter =>
    ⟨parameter.name.text, parameter.type.text, parameter.name.location, filled⟩).reverse] := by
  rw [startOf, Env.ofArguments, zipWith_map_right, zipWith_self]

/-- What a function starts with is what the check of its body starts with. -/
theorem mirrors_startOf (hwell : function.WellFormed) :
      Mirrors (globals functions) function.signature.returns (Tier.ofFunction function ::
        Stack.ofScope (file functions)) (startOf function) := by
  rw [startOf_eq]
  refine ⟨⟨rfl, rfl, fun name => ?_⟩, rfl, fun name found kind hfound =>
    ⟨Direct.kind_of_find_file hfound, initialized_of_find_file hfound⟩⟩
  -- with distinct names the order of the slots does not matter to a search
  have hdistinct := hwell.distinct
  rw [Env.find?_reverse (by simpa [Function.comp_def] using hdistinct)]
  simp only [Tier.ofFunction]
  generalize function.parameters = parameters
  induction parameters with
  | nil => rfl
  | cons parameter parameters ih =>
    rw [map_cons, map_cons, find?_cons, Direct.parameterEntry, lookup_cons]
    by_cases hname : parameter.name.text = name
    · simp [hname, filled]
    · have hne : (name == parameter.name.text) = false := by simpa using fun heq => hname heq.symm
      simp only [hne, hname, decide_false]
      exact ih

theorem apart_startOf (hfree : ∀ parameter ∈ function.parameters,
    globals functions parameter.name.text = none) :
    Apart (globals functions) (startOf function) := by
  intro slot hslot
  rw [startOf_eq, flatten_singleton, mem_reverse] at hslot
  obtain ⟨parameter, hparameter, rfl⟩ := mem_map.mp hslot
  exact hfree parameter hparameter

theorem startOf_ne_nil (function : FunctionDef) : startOf function ≠ [] := cons_ne_nil _ _

/-- A name that stands for a type stands for the one of that name. -/
theorem type_of_globals (name : String) (type : Ty)
    (h : globals functions name = some (.type type)) :
    type = .named name := by
  rcases globals_cases h with ⟨function, -, heq⟩ | ⟨-, heq⟩ | ⟨-, heq⟩ | ⟨-, heq⟩
    | ⟨-, heq⟩ <;> cases heq
  rfl

theorem globals_eq_none_iff (name : String) :
    globals functions name = none ↔ (Stack.ofScope (file functions)).find name = none :=
  Option.map_eq_none_iff

/-- The body of a function can be checked behind its parameters exactly if it is allowed there. -/
theorem agree_function (hwell : function.WellFormed)
    (hfree : ∀ parameter ∈ function.parameters, globals functions parameter.name.text = none) :
    Agree (globals functions) function.signature.returns (Direct.executeAll function.body
        { stack := Tier.ofFunction function :: Stack.ofScope (file functions) } = .ok () ·)
      (AllowedAll (globals functions) function.signature.returns function.body
        (startOf function)) :=
  agree_executeAll type_of_globals (mirrors_startOf hwell) (startOf_ne_nil function)
    (apart_startOf hfree)

/-- **A function that was checked keeps the rules.** -/
theorem allowedFunction_of_checked {checked : FunctionDef} (hwell : function.WellFormed)
    (h : Direct.Checked functions function checked) : AllowedFunction functions function := by
  have hfree : ∀ parameter ∈ function.parameters, globals functions parameter.name.text = none :=
    fun parameter hparameter => (globals_eq_none_iff _).mpr (h.free parameter hparameter)
  obtain ⟨inner, hbody, -⟩ := h.body
  obtain ⟨after, hallowed, -⟩ := (agree_function hwell hfree).allowed hbody
  exact ⟨⟨after, hallowed⟩, h.ends, hfree⟩

theorem allowedFile_of_checkedFile {checked : List FunctionDef}
    (h : Direct.CheckedFile functions checked) :
    AllowedFile functions := by
  refine ⟨h.wellFormed, h.nodup, h.main, fun function hmem => ?_⟩
  have hfind := Direct.find_file_of_mem h.nodup hmem
  rcases find?_forall₂ sameHead_checked h.each function.name with
    ⟨hnone, -⟩ | ⟨found, output, hfound, -, -, hchecked⟩
  · rw [hfind] at hnone
    cases hnone
  · rw [hfind] at hfound
    cases hfound
    exact allowedFunction_of_checked (h.wellFormed function hmem) hchecked

theorem functions_of_toStmt (functions : List FunctionDef) :
    Program.functions (functions.map FunctionDef.toStmt) = .ok functions := by
  induction functions with
  | nil => rfl
  | cons function functions ih =>
    rw [map_cons, Program.functions, ih]
    rfl

theorem fileScope_of_allowedFile (h : AllowedFile functions) :
    Program.fileScope functions = .ok (file functions) := by
  unfold Program.fileScope
  rw [if_pos (by simpa using h.main)]
  exact ofFunctions_of_wellFormed h.wellFormed h.nodup

end Files

end Execution

end FrontEnd
