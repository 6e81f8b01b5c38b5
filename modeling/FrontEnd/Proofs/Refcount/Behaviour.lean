import FrontEnd.Proofs.Prune.Behaviour
import FrontEnd.Proofs.Refcount.Simulation

/-!
# Lowering and the behaviour of a program

Where nothing is counted, lowered functions do what the functions do with the arguments on the heap
first (`observe_call_lower`). This is what they do from left to right if all expressions are in
order (`inOrderProgram`), and it is something else for some that are not (`outOfOrder`).
-/

open List

namespace FrontEnd.Refcount

/-- The state in which the body of a function is lowered. -/
def Lowering.start (context : Context) (function : FunctionDef) : Lowering where
  toContext := context
  frames := [(function.parameters.map
    (Lower.ofParameter (Lower.assignedNamesOfAll function.body))).reverse]

theorem Context.lowerFunction_eq (context : Context) (function : FunctionDef) :
    (context.lowerFunction function).1 =
      let body := Lower.block none function.body (.start context function)
      { function with
        body := ((function.parameters.map (Lower.ofParameter
            (Lower.assignedNamesOfAll function.body))).filter (·.owned)).map
            (fun v => .retain v.name v.location) ++
          if endsWithResult function.body then body.1
          else body.1 ++ body.2.frames.releaseInnermost } :=
  rfl

/-- A function and its lowered form, in some context of the program. -/
def LoweredFrom (types : ReturnTypes) (own : List String) (function lowered : FunctionDef) : Prop :=
  ∃ context : Context, context.returnTypes = types ∧ own ⊆ context.names.taken ∧
    lowered = (context.lowerFunction function).1

/-- Lowering a function takes names. -/
theorem Context.lowerFunction_context (context : Context) (function : FunctionDef) :
    (context.lowerFunction function).2.returnTypes = context.returnTypes ∧
      context.names.taken ⊆ (context.lowerFunction function).2.names.taken := by
  have hgrown := Lower.grown_block none function.body (Lowering.start context function)
  exact ⟨hgrown.returnTypes, hgrown.taken⟩

/-- Functions are lowered one after the other. -/
theorem Context.lower_functions (context : Context) (functions : List FunctionDef) :
      ∃ lowered : List FunctionDef, (context.lower (functions.map FunctionDef.toStmt)).1 =
        lowered.map FunctionDef.toStmt ∧
      Forall₂ (LoweredFrom context.returnTypes context.names.taken) functions lowered := by
  induction functions generalizing context with
  | nil => exact ⟨[], rfl, .nil⟩
  | cons function functions ih =>
    obtain ⟨hreturnTypes, htaken⟩ := context.lowerFunction_context function
    obtain ⟨lowered, hlower, hfrom⟩ := ih (context.lowerFunction function).2
    refine ⟨(context.lowerFunction function).1 :: lowered, ?_, ?_⟩
    · rw [map_cons, Context.lower, map_cons, ← hlower]
      rfl
    · refine .cons ⟨context, rfl, Subset.refl _, rfl⟩ (hfrom.imp ?_)
      rintro function lowered ⟨later, htypes, hown, rfl⟩
      exact ⟨later, htypes.trans hreturnTypes, Subset.trans htaken hown, rfl⟩

theorem parameter_mem_names {function : FunctionDef} {parameter : Parameter}
    (h : parameter ∈ function.parameters) :
    parameter.name.text ∈ function.toStmt.names := by
  simp only [FunctionDef.toStmt, Stmt.names, cons_append, mem_cons, mem_append, mem_flatMap]
  exact .inr (.inl ⟨parameter, h, by simp⟩)

theorem body_subset_names (function : FunctionDef) :
    Stmt.namesOfAll function.body ⊆ function.toStmt.names :=
  fun name hname => by simp [FunctionDef.toStmt, Stmt.names, hname]

end FrontEnd.Refcount

namespace FrontEnd.Execution

open Refcount Machine
open FunctionDef (toStmt)

theorem sameHead_lowered {types : ReturnTypes} {own : List String} {function lowered : FunctionDef}
    (h : LoweredFrom types own function lowered) : SameHead function lowered := by
  obtain ⟨context, -, -, rfl⟩ := h
  exact ⟨rfl, rfl, rfl⟩

/-- What a function starts with is what lowering starts with. -/
theorem tracks_start {own : List String} {context : Context} {function : FunctionDef}
    {values : List (Value Data)} (hown : own ⊆ context.names.taken)
    (hnames : ∀ parameter ∈ function.parameters, parameter.name.text ∈ own)
    (hlength : values.length = function.parameters.length) :
    Tracks own (.start context function) (Env.ofArguments function.parameters values)
      (Env.ofArguments function.parameters values) := by
  -- the one frame of the arguments has the parameters' names, types and places, in reverse
  have hkeys := Env.map_ofArguments (fun slot : Slot Data => (slot.name, slot.type, slot.location))
    (fun parameter => (parameter.name.text, parameter.type.text, parameter.name.location))
    (fun _ _ => rfl) hlength
  obtain ⟨slots, hslots⟩ : ∃ slots, Env.ofArguments function.parameters values = [slots] := ⟨_, rfl⟩
  rw [hslots, map_singleton, singleton_inj] at hkeys
  have hmem : ∀ slot ∈ slots, slot.name ∈ own := by
    intro slot hslot
    have hkey := mem_map_of_mem
        (f := fun slot : Slot Data => (slot.name, slot.type, slot.location)) hslot
    rw [hkeys, mem_reverse] at hkey
    obtain ⟨parameter, hparameter, heq⟩ := mem_map.mp hkey
    have hname : parameter.name.text = slot.name := congrArg Prod.fst heq
    exact hname ▸ hnames parameter hparameter
  have hlocals : ((function.parameters.map (Lower.ofParameter
      (Lower.assignedNamesOfAll function.body))).reverse.filter (·.name ∈ own)) =
      (function.parameters.map
        (Lower.ofParameter (Lower.assignedNamesOfAll function.body))).reverse := by
    refine filter_eq_self.mpr fun v hv => ?_
    obtain ⟨parameter, hparameter, rfl⟩ := mem_map.mp (mem_reverse.mp hv)
    exact decide_eq_true (hnames parameter hparameter)
  rw [hslots]
  refine ⟨⟨?_, fun slot hslot => ?_, cons_ne_nil _ _, hown⟩, .cons ?_ .nil⟩
  · rw [Env.named, map_singleton, filter_eq_self.mpr fun slot hslot => by
      exact decide_eq_true (hmem slot hslot)]
  · rw [flatten_singleton] at hslot
    exact hown (hmem slot hslot)
  · rw [hlocals, hkeys, map_reverse, map_map]
    rfl

section Programs

variable {setting : Setting} {types : ReturnTypes} {own : List String}
  {functions lowered : List FunctionDef}

/-- The lowered form of the body of a function does what the body does. -/
theorem matches_execAll_lowered {source target : Program} {call call' : Machine.Caller Data Unit}
    (hlinked : Linked setting source target call call' types) {function output : FunctionDef}
    (hlowered : LoweredFrom types own function output) (hnames : function.toStmt.names ⊆ own)
    {values : List (Value Data)} (hlength : values.length = function.parameters.length) :
    Matches (· = .stuck) (Fixed (Env.ofArguments function.parameters values)
        (Env.ofArguments function.parameters values))
      ((plain setting source).execAll ((plain setting source).staged (heapFirst types) call)
        function.body)
      ((plain setting target).execAll ((plain setting target).eval call') output.body)
      fun _ _ => True := by
  obtain ⟨context, htypes, hown, rfl⟩ := hlowered
  have hparameters : ∀ parameter ∈ function.parameters, parameter.name.text ∈ own :=
    fun parameter hparameter => hnames (parameter_mem_names hparameter)
  have hbody := Subset.trans (body_subset_names function) hnames
  -- what lowering adds around the body only counts, so the plain machine runs the bare block
  have hreleases : (plain setting target).execAll ((plain setting target).eval call')
      (context.lowerFunction function).1.body =
      (plain setting target).execAll ((plain setting target).eval call')
        (Lower.block none function.body (.start context function)).1 := by
    rw [Context.lowerFunction_eq, execAll_counting_append]
    · split
      · rfl
      · exact execAll_append_counting (counting_releases _)
    · intro stmt hstmt
      obtain ⟨v, -, rfl⟩ := mem_map.mp hstmt
      rfl
  rw [hreleases]
  refine (follows_block hlinked none function.body hbody htypes (cons_ne_nil _ _)).weaken ?_ ?_
  · rintro _ _ ⟨⟨henv, henv'⟩, hworld⟩
    exact ⟨by rw [henv, henv']; exact tracks_start hown hparameters hlength, hworld⟩
  · rintro _ _ _ _ ⟨hresult, hworld, -⟩
    exact ⟨hresult, trivial, hworld⟩

/-! ### The types of values -/

theorem lookup_ofProgram (hnodup : (functions.map (·.name)).Nodup) (name : String) :
    (ReturnTypes.ofProgram (functions.map toStmt)).lookup name =
      match functions.find? (·.name = name) with
      | some function => some (function.returnType.map Name.text)
      | none => List.lookup name [("input", some "String"), ("print", none)] := by
  rw [ReturnTypes.ofProgram, functions_of_file]
  generalize [("input", some "String"), ("print", none)] = known
  induction functions generalizing known with
  | nil => rfl
  | cons function functions ih =>
    rw [map_cons, nodup_cons] at hnodup
    rw [foldl_cons, ih hnodup.2]
    by_cases hname : function.name = name
    · have hnone : functions.find? (·.name = name) = none := by
        refine find?_eq_none.mpr fun other hother hsame => hnodup.1 ?_
        rw [hname, ← of_decide_eq_true hsame]
        exact mem_map_of_mem hother
      rw [hnone, find?_cons_of_pos (by simpa using hname)]
      simp [hname]
    · have hne : (name == function.name) = false := by simpa using fun h => hname h.symm
      rw [find?_cons_of_neg (by simpa using hname), lookup_cons]
      simp only [hne]

/-- The value of a call is what the head of the function says. -/
theorem holds_invoke_fits {program : Program} (evaluate : Expr → Run Data Unit (Value Data))
    (function : FunctionDef) (values : List (Value Data)) :
    Holds (fun _ => True) ((plain setting program).invoke evaluate function values)
      (fun value _ => ∀ type, function.returnType.map Name.text = some type →
        Fits value type) fun _ => True := by
  refine Holds.bind (holds_true _) fun _ => Holds.bind (holds_true _) fun before => ?_
  refine Holds.bind (holds_true _) fun _ => Holds.bind (holds_true _) fun result => ?_
  refine Holds.bind (holds_true _) fun _ => ?_
  cases hreturn : function.returnType with
  | none =>
    refine Holds.bind (holds_true _) fun value => Holds.bind (holds_true _) fun _ => ?_
    exact .pure fun _ _ type htype => by cases htype
  | some name =>
    have hconclude : Holds (fun _ => True) ((plain setting program).conclude (some name) result)
        (fun value _ => Fits value name.text) fun _ => True := by
      cases result with
      | none => exact .throw trivial
      | some value =>
        rw [conclude]
        by_cases hfits : Fits value name.text
        · rw [expect_plain hfits, pure_bind]
          exact .pure fun _ _ => hfits
        · rw [expect_plain_eq_throw hfits]
          exact fun _ _ => trivial
    refine (hconclude.weaken (fun _ => id) fun _ _ hfits => ⟨trivial, hfits⟩ :
      Holds _ _ (fun value _ => True ∧ Fits value name.text) _).step fun value hfits => ?_
    refine Holds.bind (holds_true _) fun _ => .pure fun _ _ type htype => ?_
    cases htype
    exact hfits

/-- Calls give values of the types that lowering takes them to have. -/
theorem callsFit_ofProgram (hnodup : (functions.map (·.name)).Nodup)
    (hfree : ∀ function ∈ functions, function.name ≠ "print" ∧ function.name ≠ "input")
    (strategy : Machine.Strategy Data Unit) (depth : Nat) :
    CallsFit (.ofProgram (functions.map toStmt)) ((plainFile setting functions).call
      strategy depth) := by
  intro name values
  rw [lookup_ofProgram hnodup]
  cases hbuiltin : (plainFile setting functions).builtin? name values with
  | some =>
    rw [call_builtin hbuiltin]
    -- no function of the file is called like a built-in one, so the table has no type for those
    have hnone : ∀ name, (name = "print" ∨ name = "input") →
        functions.find? (·.name = name) = none := by
      intro name hname
      refine find?_eq_none.mpr fun function hmem hsame => ?_
      rw [of_decide_eq_true hsame |>.symm] at hname
      exact hname.elim (hfree function hmem).1 (hfree function hmem).2
    unfold builtin? at hbuiltin
    split at hbuiltin
    · rw [hnone _ (.inl rfl)]
      exact (holds_true _).weaken (fun _ => id) fun _ _ _ type htype => by cases htype
    · cases hbuiltin
      rw [hnone _ (.inr rfl)]
      intro state _ type htype
      cases htype
      rfl
    · cases hbuiltin
  | none =>
    cases hfind : functions.find? (·.name = name) with
    | none =>
      rw [call_undefined hbuiltin (by rw [definition?_eq, hfind])]
      exact .throw trivial
    | some function =>
      cases depth with
      | zero =>
        rw [call_zero hbuiltin (by rw [definition?_eq, hfind])]
        exact .throw trivial
      | succ =>
        rw [call_succ hbuiltin (by rw [definition?_eq, hfind])]
        exact holds_invoke_fits _ function values

/-! ### Calls -/

/-- **Lowered functions do what the functions do** with the arguments on the heap first. -/
theorem callersAgree_lowered (hnodup : (functions.map (·.name)).Nodup)
    (hfree : ∀ function ∈ functions, function.name ≠ "print" ∧ function.name ≠ "input")
    (hlowered : Forall₂ (LoweredFrom (.ofProgram (functions.map toStmt)) own) functions lowered)
    (hown : ∀ function ∈ functions, function.toStmt.names ⊆ own) :
    ∀ depth, CallersAgree (· = .stuck) ((plainFile setting functions).call
        ((plainFile setting functions).staged (heapFirst (.ofProgram (functions.map toStmt))))
        depth)
      ((plainFile setting lowered).call (plainFile setting lowered).eval depth) := by
  refine callersAgree_of_bodies sameHead_lowered hlowered
    fun depth function output values hmem hfrom hcalls hlength => ?_
  exact matches_execAll_lowered ⟨global?_eq_of_forall₂ sameHead_lowered hlowered, hcalls,
    callsFit_ofProgram hnodup hfree _ depth⟩ hfrom (hown function hmem) hlength

/-- Functions whose expressions are in order do the same from left to right. -/
theorem callersAgree_inOrder (h : inOrderProgram (functions.map toStmt) = true) :
    ∀ depth, CallersAgree (· = .stuck) ((plainFile setting functions).call
      (plainFile setting functions).eval depth) ((plainFile setting functions).call
        ((plainFile setting functions).staged
          (heapFirst (.ofProgram (functions.map toStmt)))) depth) := by
  rw [inOrderProgram, functions_of_file, all_eq_true] at h
  have hhead : ∀ {function other : FunctionDef}, function = other → SameHead function other := by
    rintro function _ rfl
    exact ⟨rfl, rfl, rfl⟩
  refine callersAgree_of_bodies hhead (forall₂_refl functions)
    fun depth function other values hmem heq hcalls _ => ?_
  subst heq
  have hbody := all_eq_true.mp (h function hmem)
  refine Relates.weaken (matches_execAll function.body fun expression hexpression env =>
      agrees_eval_staged hcalls (callersAgree_self _ depth) (fun _ => rfl)
        (hbody expression hexpression)) ?_
    fun _ _ _ _ hstate => ⟨hstate.1, trivial, hstate.2.2⟩
  rintro _ _ ⟨⟨henv, henv'⟩, hworld⟩
  exact ⟨henv.trans henv'.symm, hworld⟩

end Programs

section Checked

variable {setting : Setting} {functions checked : List FunctionDef}

/-- What a check keeps does not get stuck. -/
theorem call_checked_ne_stuck (h : Direct.CheckedFile functions checked) (eager : Expr → Bool)
    {depth : Nat} {name : String} {values : List (Value Data)} {state : State Data Unit}
    {output : FunctionDef} (hfind : checked.find? (·.name = name) = some output)
    (hfits : FitAll values output.parameters) {halt : Halt} {after : State Data Unit}
    (hcall : (plainFile setting checked).call ((plainFile setting checked).staged eager) depth
      name values state = .error halt after) : halt ≠ .stuck := by
  have hobserve : observe ((plainFile setting checked).call
      ((plainFile setting checked).staged eager) depth name values) state = _ :=
    observe_call_checked h eager depth name values state
  rcases find?_forall₂ sameHead_checked h.each name with
    ⟨-, hnone⟩ | ⟨function, found, hfunction, hfound, hmem, hchecked⟩
  · rw [hfind] at hnone
    cases hnone
  · rw [hfind] at hfound
    cases hfound
    have hname : function.name = name := by simpa using find?_some hfunction
    rw [(sameHead_checked hchecked).parameters] at hfits
    unfold observe at hobserve
    rw [hcall] at hobserve
    cases hcall' : (plainFile setting functions).call ((plainFile setting functions).staged eager)
        depth name values state with
    | ok => rw [hcall'] at hobserve; cases hobserve
    | error halt' =>
      rw [hcall'] at hobserve
      have hhalt : halt = halt' := by simpa using congrArg Prod.fst hobserve
      rw [hhalt]
      exact call_ne_stuck h eager hmem hfits (hname ▸ hcall')

theorem ne_builtin_checked (h : Direct.CheckedFile functions checked) :
    ∀ output ∈ checked, output.name ≠ "print" ∧ output.name ≠ "input" := by
  intro output hmem
  rcases find?_forall₂ sameHead_checked h.each output.name with
    ⟨-, hnone⟩ | ⟨function, found, hfunction, -, hmem', -⟩
  · exact absurd (decide_eq_true rfl) (find?_eq_none.mp hnone output hmem)
  · have hname : function.name = output.name := by simpa using find?_some hfunction
    rw [← hname]
    exact ne_builtin_of_wellFormed (h.wellFormed function hmem')

theorem names_subset_namesOfAll {function : FunctionDef} (h : function ∈ functions) :
    function.toStmt.names ⊆ Stmt.namesOfAll (functions.map toStmt) := by
  induction functions with
  | nil => cases h
  | cons first functions ih =>
    rw [map_cons, Stmt.namesOfAll]
    rcases mem_cons.mp h with rfl | h
    · exact subset_append_left _ _
    · exact Subset.trans (ih h) (subset_append_right _ _)

/-- **A lowered call looks from outside like the call with the arguments on the heap first**,
whatever is passed to it. -/
theorem observe_call_lower (h : Direct.CheckedFile functions checked) (depth : Nat) (name : String)
    (values : List (Value Data)) (state : State Data Unit) :
    observe ((plain setting (lower (checked.map toStmt))).call
        (plain setting (lower (checked.map toStmt))).eval depth name values) state =
      observe ((plainFile setting checked).call ((plainFile setting checked).staged
        (heapFirst (.ofProgram (checked.map toStmt)))) depth name values) state := by
  obtain ⟨lowered, hlower, hfrom⟩ :=
    (Context.ofProgram (checked.map toStmt)).lower_functions checked
  rw [lower, hlower]
  exact observe_call_eq sameHead_lowered hfrom (callersAgree_lowered (nodup_checked h)
    (ne_builtin_checked h) hfrom
      (fun _ => names_subset_namesOfAll) depth)
    fun _ hfind hfits _ _ => call_checked_ne_stuck h _ hfind hfits

/-- From left to right a call does the same, if all expressions are in order. -/
theorem observe_call_inOrder (h : Direct.CheckedFile functions checked)
    (horder : inOrderProgram (checked.map toStmt) = true) (depth : Nat) (name : String)
    (values : List (Value Data)) (state : State Data Unit) :
    observe ((plainFile setting checked).call ((plainFile setting checked).staged
        (heapFirst (.ofProgram (checked.map toStmt)))) depth name values) state =
      observe ((plainFile setting checked).call (plainFile setting checked).eval depth name
        values) state := by
  have hhead : ∀ {function other : FunctionDef}, function = other → SameHead function other := by
    rintro function _ rfl
    exact ⟨rfl, rfl, rfl⟩
  refine observe_call_eq hhead (forall₂_refl checked) (callersAgree_inOrder horder depth) ?_
  rw [← staged_all]
  exact fun _ hfind hfits _ _ => call_checked_ne_stuck h _ hfind hfits

end Checked

/-- **Lowering keeps the behaviour of a program, but for the order of arguments.** Without counting,
lowered functions do what the functions of a checked program do with the arguments on the heap
first: for all that may come in from outside, any bound on the depth of calls and any values that
are passed, the call reads and writes the same lines, and ends in the same way with the same value.
If no call that stays where it is stands in front of an argument out of which a call is moved, this
is what they do from left to right. No call of `main` comes to anything without a meaning. -/
theorem lower_preserves_behaviour {program out : Program} (h : program.check.result = .ok out)
    (setting : Setting) (depth : Nat) (name : String) (values : List (Value Data))
    (state : State Data Unit) :
    Machine.observe ((plain setting (lower out)).call (plain setting (lower out)).eval
        depth name values)
        state =
      Machine.observe ((plain setting out).call ((plain setting out).staged
        (heapFirst (.ofProgram out))) depth name values) state ∧
    (inOrderProgram out = true →
      Machine.observe ((plain setting (lower out)).call (plain setting (lower out)).eval depth name
          values) state =
        Machine.observe ((plain setting out).call (plain setting out).eval depth name
          values) state) ∧
    (Machine.observe ((plain setting (lower out)).call (plain setting (lower out)).eval
      depth "main" [])
      state).1 ≠ .error .stuck := by
  rw [Ordered.check_eq_direct_check] at h
  obtain ⟨functions, checked, rfl, rfl, hfile⟩ := Direct.check_eq_ok h
  refine ⟨observe_call_lower hfile depth name values state, fun horder => ?_, ?_⟩
  · rw [observe_call_lower hfile, observe_call_inOrder hfile horder]
  · rw [observe_call_lower hfile, observe_call_checked hfile]
    exact observe_main_checked hfile _ depth state

/-- A program that passes the result of a call to `tell` and a text that is read to a function, in
this order. -/
def outOfOrder : Program :=
  let name (text : String) : Name := ⟨text, default⟩
  let call (text : String) (arguments : List Expr) : Expr :=
    .call (.name (name text)) arguments default
  [.function "tell" [] (some (name "Bool"))
      [.expression (call "print" [.string "told" default]) default,
        .result (.name (name "TRUE")) default] default,
    .function "answer" [⟨name "Bool", name "first"⟩, ⟨name "String", name "second"⟩] none
      [.expression (call "print" [.name (name "second")]) default] default,
    .function "main" [] none
      [.expression (call "answer" [call "tell" [], call "input" []]) default] default]

/-- From left to right `outOfOrder` writes a line before it reads one. Its lowered form reads
first. -/
theorem lower_outOfOrder :
    ∃ out, outOfOrder.check.result = .ok out ∧ inOrderProgram out = false ∧
      Machine.observe ((plain lateAnswer out).call (plain lateAnswer out).eval 2 "main" [])
        ⟨[], (), {}⟩ =
        (.ok .nothing, ⟨1, 0, [.printed (some "told"), .read "early", .printed (some "early")]⟩) ∧
      Machine.observe ((plain lateAnswer (lower out)).call
          (plain lateAnswer (lower out)).eval 2 "main" []) ⟨[], (), {}⟩ =
        (.ok .nothing,
          ⟨1, 0, [.read "early", .printed (some "told"), .printed (some "early")]⟩) := by
  refine exists_kept ?_
  decide +kernel

/-- A program that passes what it reads through functions, in a condition and in an expression. -/
def nestedAnswers : Program :=
  let name (text : String) : Name := ⟨text, default⟩
  let call (text : String) (arguments : List Expr) : Expr :=
    .call (.name (name text)) arguments default
  let string (text : String) : Parameter := ⟨name "String", name text⟩
  [.function "second" [string "first", string "last"] (some (name "String"))
      [.expression (call "print" [.name (name "first")]) default,
        .result (.name (name "last")) default] default,
    .function "heard" [string "line"] (some (name "Bool"))
      [.expression (call "print" [.name (name "line")]) default,
        .result (.name (name "TRUE")) default] default,
    .function "main" [] none
      [.declaration (name "String") "line" default,
        .assignment (name "line") (call "second" [call "input" [], .string "kept" default]) default,
        .conditional (call "heard" [call "second" [.name (name "line"), call "input" []]])
          [.assignment (name "line") (call "second" [call "input" [], .name (name "line")]) default,
            .expression (call "print" [.name (name "line")]) default] default] default]

/-- What the world sees of `nestedAnswers`. -/
def nestedAnswersSeen : World :=
  ⟨3, 1, [.read "early", .printed (some "early"), .read "early", .printed (some "kept"),
    .printed (some "early"), .read "last", .printed (some "last"), .printed (some "kept")]⟩

theorem lower_preserves_behaviour_nestedAnswers :
    ∃ out, nestedAnswers.check.result = .ok out ∧ inOrderProgram out = true ∧
      Machine.observe ((plain lateAnswer (lower out)).call
        (plain lateAnswer (lower out)).eval 2 "main"
        []) ⟨[], (), {}⟩ = (.ok .nothing, nestedAnswersSeen) := by
  obtain ⟨out, hresult, horder, hobserve⟩ : ∃ out, nestedAnswers.check.result = .ok out ∧
      inOrderProgram out = true ∧
      Machine.observe ((plain lateAnswer out).call (plain lateAnswer out).eval 2 "main" [])
        ⟨[], (), {}⟩ = (.ok .nothing, nestedAnswersSeen) := exists_kept (by decide +kernel)
  exact ⟨out, hresult, horder,
    ((lower_preserves_behaviour hresult _ _ _ _ _).2.1 horder).trans hobserve⟩

end FrontEnd.Execution
