import FrontEnd.Proofs.Prune.Spare
import FrontEnd.Proofs.Scope.Deferred
import FrontEnd.Proofs.Typing.Complete

/-!
# What a check removes and what it warns about

While a body is checked, its variables get marks when their names are read, and at the end of the
body those without a mark are removed and warned about. A mark goes to the innermost variable that
has the name at that moment. Here it is shown that the marks at the end of a body are exactly those
that the variables deserve by where their names stand (`Direct.swept_executeAll`): what the check
knows of a variable when its body ends is whether it is spare.

So a check that succeeds removes the spare variables and nothing else but expressions without an
effect, and each warning is about one of these, in the order in which statements are reached and
bodies end (`check_removesSpare`).

The open bodies are seen as lists of what is known of their variables (`Direct.Stack.tracked`).
Reading names is one operation on such lists, however many there are (`touch`), and operations of
this kind add up (`touch_touch`).
-/

namespace FrontEnd

open List Tracked

open FunctionDef (toStmt)

variable {program out : Program}

/-! ### What is known of variables -/

/-- A variable after some names were read, for which it stands. -/
def Tracked.touched (reads : String → Bool) (old : Tracked) : Tracked :=
  { old with used := old.used || reads old.name }

/-- Whether a body has a variable of the name. -/
def hasName (body : List Tracked) (name : String) : Bool := body.any (·.name = name)

/-- The variables of the open bodies, innermost first, after names were read: each name marks the
innermost variable that has it. -/
def touch (reads : String → Bool) : List (List Tracked) → List (List Tracked)
  | [] => []
  | body :: outer =>
    body.map (touched reads) :: touch (fun name => reads name && !hasName body name) outer

/-- The variables of the open bodies with more variables in the innermost one. -/
def declareMore (new : List Tracked) : List (List Tracked) → List (List Tracked)
  | [] => []
  | body :: outer => (body ++ new) :: outer

section Touch

variable {reads others : String → Bool} {body : List Tracked} {bodies : List (List Tracked)}
  {name : String}

theorem Tracked.touched_congr {old : Tracked} (h : reads old.name = others old.name) :
    old.touched reads = old.touched others := by
  rw [touched, touched, h]

theorem hasName_touched (reads : String → Bool) (body : List Tracked) (name : String) :
    hasName (body.map (touched reads)) name = hasName body name := by
  rw [hasName, any_map]
  rfl

theorem not_hasName_iff : hasName body name = false ↔ ∀ old ∈ body, old.name ≠ name := by
  simp [hasName]

/-- Names of other variables leave no marks. -/
theorem map_touched_eq_self (h : ∀ old ∈ body, reads old.name = false) :
    body.map (touched reads) = body := by
  refine (map_congr_left fun old hold => ?_).trans (map_id body)
  rw [touched, h old hold, Bool.or_false]
  rfl

theorem touch_false (bodies : List (List Tracked)) : touch (fun _ => false) bodies = bodies := by
  induction bodies with
  | nil => rfl
  | cons body outer ih =>
    rw [touch, map_touched_eq_self fun _ _ => rfl]
    exact congrArg _ ih

/-- Marks add up. -/
theorem touch_touch (reads others : String → Bool) (bodies : List (List Tracked)) :
    touch others (touch reads bodies) = touch (fun name => reads name || others name) bodies := by
  induction bodies generalizing reads others with
  | nil => rfl
  | cons body outer ih =>
    simp only [touch, hasName_touched, ih, ← Bool.and_or_distrib_right, map_map]
    congr 2
    funext old
    simp [touched, Bool.or_assoc]

/-- Behind a new variable in the innermost body, its name marks that variable and none that was
there before. -/
theorem touch_declareMore (hnew : hasName body name = false) (location : Location)
    (outer : List (List Tracked)) :
    touch reads (declareMore [⟨name, some location, false⟩] (body :: outer)) =
      declareMore [⟨name, some location, reads name⟩]
        (touch (fun other => !decide (name = other) && reads other) (body :: outer)) := by
  have hbody : body.map (touched reads) =
      body.map (touched fun other => !decide (name = other) && reads other) := by
    refine map_congr_left fun old hold => touched_congr ?_
    simp [(not_hasName_iff.mp hnew old hold).symm]
  have houter : (fun other =>
      reads other && !hasName (body ++ [⟨name, some location, false⟩]) other) =
      fun other => (!decide (name = other) && reads other) && !hasName body other := by
    funext other
    simp only [hasName, any_append, any_cons, any_nil, Bool.or_false]
    cases reads other <;> simp [Bool.and_comm]
  simp only [declareMore, touch, map_append, map_cons, map_nil, hbody, houter]
  simp [touched]

end Touch

namespace Direct

variable {before after : State} {stmt : Stmt} {block : List Stmt}

/-! ### What the stack knows -/

/-- What a body knows of its variables. -/
def Tier.tracked (tier : Tier) : List Tracked :=
  tier.table.map fun (name, old) => ⟨name, old.definedAt, old.used⟩

namespace Stack

/-- What the open bodies know of their variables. -/
def tracked (stack : Stack) : List (List Tracked) := stack.map Tier.tracked

/-- The innermost body. -/
def top (stack : Stack) : Tier := stack.headD default

variable {stack other middle after : Stack} {name : String}

theorem top_emitted (h : stack ≠ []) (stmt : Stmt) :
    (stack.emitted stmt).top.output = stack.top.output ++ [stmt] := by
  cases stack with
  | nil => exact absurd rfl h
  | cons => rfl

theorem nodup_top_of_extends (h : middle.Extends after)
    (hnodup : (middle.top.table.map Prod.fst).Nodup) : (after.top.table.map Prod.fst).Nodup := by
  match middle, after, h with
  | _ :: _, _ :: _, ⟨htier, _⟩ => exact htier.nodup hnodup

theorem Alike.output (h : stack.Alike other) : other.top.output = stack.top.output := by
  cases h with
  | nil => rfl
  | cons htier => exact htier.output

theorem hasName_tracked (tier : Tier) (name : String) :
    hasName tier.tracked name = (tier.table.lookup name).isSome := by
  simp only [hasName, Tier.tracked]
  induction tier.table with
  | nil => rfl
  | cons entry table ih =>
    rw [map_cons, any_cons, ih, lookup_cons]
    by_cases hname : entry.1 = name
    · simp [hname]
    · have hne : (name == entry.1) = false := by simpa using fun heq => hname heq.symm
      simp [hname, hne]

/-- A change of the innermost variable of a name, which may mark it as used. -/
theorem tracked_update (stack : Stack) (name : String) (mark : Bool) {change : Variable → Variable}
    (hchange : ∀ old,
      (change old).definedAt = old.definedAt ∧ (change old).used = (old.used || mark)) :
    (stack.update name change).tracked =
      touch (fun other => mark && decide (other = name)) stack.tracked := by
  induction stack with
  | nil => rfl
  | cons tier outer ih =>
    simp only [update]
    cases hlookup : tier.table.lookup name with
    | some =>
      -- the name means the variable of this body, so no other one gets the mark
      have hhasName := hasName_tracked tier name
      rw [hlookup] at hhasName
      have hnone : (fun other => (mark && decide (other = name)) && !hasName tier.tracked other) =
          fun _ => false := by
        funext other
        by_cases hother : other = name
        · simp [hother, hhasName]
        · simp [hother]
      simp only [tracked, map_cons, touch, hnone, touch_false]
      congr 1
      simp only [Tier.tracked, Table.adjust, map_map]
      refine map_congr_left fun entry _ => ?_
      simp only [Function.comp_apply, touched]
      by_cases hentry : entry.1 = name
      · simp [hentry, hchange]
      · simp [hentry]
    | none =>
      have hhasName := hasName_tracked tier name
      rw [hlookup] at hhasName
      have hsame : (fun other => (mark && decide (other = name)) && !hasName tier.tracked other) =
          fun other => mark && decide (other = name) := by
        funext other
        by_cases hother : other = name
        · simp [hother, hhasName]
        · simp [hother]
      simp only [tracked, map_cons, touch, hsame] at ih ⊢
      rw [ih]
      rw [map_touched_eq_self]
      intro old hold
      simp [not_hasName_iff.mp hhasName old hold]

/-- Reading names marks the innermost variables that have them, all at once. -/
theorem tracked_read (stack : Stack) (names : List String) :
    (stack.read names).tracked = touch (fun name => names.contains name) stack.tracked := by
  induction names generalizing stack with
  | nil => exact (touch_false stack.tracked).symm
  | cons name names ih =>
    have hfirst : (stack.update name fun old => { old with used := true }).tracked =
        touch (fun other => true && decide (other = name)) stack.tracked :=
      tracked_update stack name true fun old => ⟨rfl, (Bool.or_true old.used).symm⟩
    rw [read_cons, ih, hfirst, touch_touch]
    rfl

/-- A variable that gets a value is not used by that. -/
theorem tracked_initialized (stack : Stack) (name : String) :
    (stack.update name fun old => { old with initialized := true }).tracked = stack.tracked := by
  refine (tracked_update stack name false fun old => ?_).trans (touch_false stack.tracked)
  exact ⟨rfl, (Bool.or_false old.used).symm⟩

theorem tracked_emitted (stack : Stack) (stmt : Stmt) :
    (stack.emitted stmt).tracked = stack.tracked := by
  cases stack <;> rfl

theorem tracked_declared (hclash : stack.clash name = none) (new : Variable) :
    (stack.declared name new).tracked =
      declareMore [⟨name, new.definedAt, new.used⟩] stack.tracked := by
  cases stack with
  | nil => rfl
  | cons tier outer =>
    change ({ tier with table := tier.table.insert name new } : Tier).tracked :: tracked outer = _
    rw [Tier.tracked, Table.insert_of_lookup_eq_none (lookup_eq_none_of_clash hclash), map_append]
    rfl

theorem tracked_push (h : stack ≠ []) : stack.push.tracked = [] :: stack.tracked := by
  cases stack with
  | nil => exact absurd rfl h
  | cons => rfl

end Stack

/-! ### The end of a body -/

theorem Tier.unused_tracked (tier : Tier) :
    tier.unused.map (fun (name, old) => (⟨name, old.definedAt, old.used⟩ : Tracked)) =
      tier.tracked.filter (!·.used) := by
  rw [Tier.tracked, filter_map]
  rfl

section Finished

variable {tier : Tier} {block : List Stmt}

theorem Tier.warnings_eq_spareIn
    (h : tier.tracked.filter (!·.used) = (declaredIn block).filter (!·.used)) :
    tier.warnings = spareIn block := by
  have hwarnings : tier.warnings = (tier.tracked.filter (!·.used)).filterMap fun old =>
      old.declaredAt.map fun location => ⟨.unusedVariable old.name, location⟩ := by
    rw [← Tier.unused_tracked, filterMap_map]
    rfl
  rw [hwarnings, h]
  clear h hwarnings
  induction block with
  | nil => rfl
  | cons stmt block ih =>
    rcases stmt.declaration_or_plain with ⟨type, name, location, rfl⟩ | hdeclares
    · rw [declaredIn, spareIn, Stmt.spareWarning]
      cases huses : usesFree name block <;> simp [ih]
    · rw [(Stmt.plain hdeclares).declaredIn, (Stmt.plain hdeclares).spareIn, ih]

theorem Tier.pruned_eq_removeVariables
    (h : tier.tracked.filter (!·.used) = (declaredIn block).filter (!·.used)) :
    tier.pruned = removeVariables (spareNames block) tier.output := by
  rw [spareNames, ← h, ← Tier.unused_tracked, map_map, removeVariables, foldl_map]
  rfl

end Finished

/-- What a check has done when it is through with a block: it has kept what is kept of the
statements when they are reached, knows the variables that are declared in the block and what is
used, and has given the warnings. -/
structure Swept (before after : State) (block : List Stmt) : Prop where
  output : after.stack.top.output = before.stack.top.output ++ block.flatMap Stmt.reached
  tracked : after.stack.tracked =
    declareMore (declaredIn block) (touch (fun name => usesFree name block) before.stack.tracked)
  warnings : after.warnings = before.warnings ++ cautionsOfAll block

theorem declareMore_nil (bodies : List (List Tracked)) : declareMore [] bodies = bodies := by
  cases bodies <;> simp [declareMore]

theorem Swept.nil (state : State) : Swept state state [] := by
  refine ⟨by simp, ?_, by simp [cautionsOfAll]⟩
  rw [declaredIn, declareMore_nil]
  exact (touch_false _).symm

/-- A statement that declares nothing comes first. -/
theorem Swept.cons_plain {middle : State} (hdeclares : ∀ name, stmt.declares name = false)
    (houtput : middle.stack.top.output = before.stack.top.output ++ stmt.reached)
    (htracked : middle.stack.tracked = touch (fun name => stmt.uses name) before.stack.tracked)
    (hwarnings : middle.warnings = before.warnings ++ stmt.cautions)
    (h : Swept middle after block) :
    Swept before after (stmt :: block) := by
  have hplain := Stmt.plain hdeclares
  refine ⟨?_, ?_, ?_⟩
  · rw [h.output, houtput, flatMap_cons, append_assoc]
  · rw [h.tracked, htracked, touch_touch, hplain.declaredIn]
    congr 3
    funext name
    rw [usesFree, hdeclares name, Bool.not_false, Bool.true_and]
  · rw [h.warnings, hwarnings, cautionsOfAll, append_assoc]

/-- A declaration comes first. Behind it the name marks the new variable, which is the last one that
is known. -/
theorem Swept.cons_declaration {type : Name} {name : String} {location : Location} {new : Variable}
    (hne : before.stack ≠ []) (hclash : before.stack.clash name = none)
    (hnew : new.definedAt = some location ∧ new.used = false)
    (h : Swept { before with stack := (before.stack.declared name new).emitted (.declaration type
      name location) }
      after block) : Swept before after (.declaration type name location :: block) := by
  obtain ⟨stack, warnings⟩ := before
  cases stack with
  | nil => exact absurd rfl hne
  | cons tier outer =>
    have hhasName : hasName tier.tracked name = false := by
      rw [Stack.hasName_tracked, Stack.lookup_eq_none_of_clash hclash]
      rfl
    refine ⟨?_, ?_, ?_⟩
    · rw [h.output]
      simp [Stack.emitted, Stack.declared, Stack.modifyTop, Stack.top, Stmt.reached]
    · rw [h.tracked, Stack.tracked_emitted, Stack.tracked_declared hclash, hnew.1, hnew.2]
      change declareMore _ (touch _ (declareMore _ (tier.tracked :: Stack.tracked outer))) = _
      rw [touch_declareMore hhasName]
      simp only [touch, declareMore, declaredIn, append_assoc, singleton_append]
      rfl
    · exact h.warnings

theorem Stack.tracked_top {stack : Stack} (h : stack ≠ []) :
    stack.tracked = stack.top.tracked :: Stack.tracked stack.tail := by
  cases stack with
  | nil => exact absurd rfl h
  | cons => rfl

/-- **A body that has ended.** What is kept of it is what is left without spare variables, and the
warnings at its end are about these. It may have started with parameters, which count as used. -/
theorem Swept.finished (h : Swept before after block) (hextends : before.stack.Extends after.stack)
    (hne : before.stack ≠ []) (hempty : before.stack.top.output = [])
    (hnodup : (before.stack.top.table.map Prod.fst).Nodup)
    (hused : ∀ old ∈ before.stack.top.tracked, old.used = true) :
    after.stack.top.pruned = removeSpare (fun _ => false) block ∧
      after.stack.top.warnings = spareIn block := by
  -- the variables of the body at its end are those it started with and those it declares
  have htop : after.stack.top.tracked =
      before.stack.top.tracked.map (touched fun name => usesFree name block) ++
        declaredIn block := by
    have htracked := h.tracked
    rw [Stack.tracked_top hextends.ne_nil, Stack.tracked_top hne] at htracked
    exact (cons.inj htracked).1
  have hunused :
      after.stack.top.tracked.filter (!·.used) = (declaredIn block).filter (!·.used) := by
    have hnone :
        (before.stack.top.tracked.map (touched fun name => usesFree name block)).filter
          (!·.used) = [] := by
      refine filter_eq_nil_iff.mpr fun new hnew => ?_
      obtain ⟨old, hold, rfl⟩ := mem_map.mp hnew
      simp [touched, hused old hold]
    rw [htop, filter_append, hnone, nil_append]
  have hdistinct : ((declaredIn block).map name).Nodup := by
    have hnames : after.stack.top.tracked.map name = after.stack.top.table.map Prod.fst := by
      rw [Tier.tracked, map_map]
      rfl
    have hall := Stack.nodup_top_of_extends hextends hnodup
    rw [← hnames, htop, map_append] at hall
    exact (nodup_append.mp hall).2.1
  refine ⟨?_, Tier.warnings_eq_spareIn hunused⟩
  rw [Tier.pruned_eq_removeVariables hunused, h.output, hempty, nil_append,
    removeVariables_spareNames hdistinct]

/-- A statement is kept, after the variables that it uses got their marks. -/
theorem Swept.cons_emitted {middle : Stack} {new : Stmt} {warnings : List Warning}
    (h : Swept ⟨middle.emitted new, warnings⟩ after block) (hne : before.stack ≠ [])
    (halike : before.stack.Alike middle) (hdeclares : ∀ name, stmt.declares name = false)
    (hreached : stmt.reached = [new])
    (htracked : middle.tracked = touch (fun name => stmt.uses name) before.stack.tracked)
    (hwarnings : warnings = before.warnings ++ stmt.cautions) :
    Swept before after (stmt :: block) := by
  refine h.cons_plain hdeclares ?_ ?_ hwarnings
  · rw [Stack.top_emitted (halike.extends hne).ne_nil, halike.output, hreached]
  · rw [Stack.tracked_emitted, htracked]

mutual

theorem swept_execute : ∀ (stmt : Stmt) {state middle after : State} {block : List Stmt},
    execute stmt state = .ok () middle → state.stack ≠ [] → Swept middle after block →
    Swept state after (stmt :: block)
  | .expression expression location, state, middle, after, block, h, hne, hrest => by
    obtain ⟨-, ⟨hcall, rfl⟩ | ⟨hcall, rfl⟩⟩ := execute_eq_ok_iff.mp h
    · refine hrest.cons_emitted hne (Stack.alike_read _ _) (fun _ => rfl) ?_ ?_ ?_
      · simp [Stmt.reached, Stmt.withoutSpare, hcall]
      · simp [Stack.tracked_read, Stmt.uses, hcall]
      · simp [Stmt.cautions, hcall]
    · refine hrest.cons_plain (fun _ => rfl) ?_ ?_ ?_
      · simp [Stmt.reached, Stmt.withoutSpare, hcall]
      · simp [Stmt.uses, hcall, touch_false]
      · simp [Stmt.cautions, hcall]
  | .declaration type name location, state, middle, after, block, h, hne, hrest => by
    obtain ⟨hclash, found, -, rfl⟩ := execute_eq_ok_iff.mp h
    exact hrest.cons_declaration hne hclash ⟨rfl, rfl⟩
  | .assignment target value location, state, middle, after, block, h, hne, hrest => by
    obtain ⟨found, -, -, rfl⟩ := execute_eq_ok_iff.mp h
    have hupdate : Stack.Alike (state.stack.read value.names) ((state.stack.read value.names).update
        target.text fun old => { old with initialized := true }) :=
      Stack.alike_update _ target.text ⟨fun _ => rfl, fun _ => id⟩
    refine hrest.cons_emitted hne ((Stack.alike_read _ _).trans hupdate) (fun _ => rfl) ?_ ?_ ?_
    · simp [Stmt.reached, Stmt.withoutSpare]
    · simp [Stack.tracked_initialized, Stack.tracked_read, Stmt.uses]
    · simp [Stmt.cautions]
  | .conditional expression body location, state, middle, after, block, h, hne, hrest => by
    obtain ⟨-, inner, hbody, rfl⟩ := execute_eq_ok_iff.mp h
    have hread := Stack.alike_read state.stack expression.names
    have hne' : state.stack.read expression.names ≠ [] := (hread.extends hne).ne_nil
    have hinner := extends_executeAll body hbody (Stack.push_ne_nil _)
    have htail : Stack.Alike (state.stack.read expression.names) inner.stack.tail := by
      simpa only [Stack.tail_push hne'] using Stack.alike_tail_of_extends hinner
    have hswept := swept_executeAll body hbody (Stack.push_ne_nil _)
    -- the body starts with no variables, so all the names that it uses are those of outer ones
    obtain ⟨hpruned, hwarnings⟩ := hswept.finished hinner (Stack.push_ne_nil _)
      (by cases state.stack.read expression.names <;> rfl)
      (by cases state.stack.read expression.names <;> exact .nil)
      (by cases state.stack.read expression.names <;> simp [Stack.push, Stack.top, Tier.tracked])
    have htracked := hswept.tracked
    rw [Stack.tracked_push hne', Stack.tracked_top hinner.ne_nil, Stack.tracked_read] at htracked
    refine hrest.cons_emitted hne (hread.trans htail) (fun _ => rfl) ?_ ?_ ?_
    · simp [Stmt.reached, Stmt.withoutSpare, ← hpruned, Stack.top]
    · rw [(cons.inj htracked).2, touch_touch]
      congr 1
      funext name
      simp [Stmt.uses, hasName]
    · rw [hswept.warnings, Stmt.cautions, ← hwarnings, append_assoc]
      rfl
  | .result value location, state, middle, after, block, h, hne, hrest => by
    obtain ⟨expected, -, -, rfl⟩ := execute_eq_ok_iff.mp h
    refine hrest.cons_emitted hne (Stack.alike_read _ _) (fun _ => rfl) ?_ ?_ ?_
    · simp [Stmt.reached, Stmt.withoutSpare]
    · simp [Stack.tracked_read, Stmt.uses]
    · simp [Stmt.cautions]
  | .function .., state, middle, after, block, h, hne, hrest => (execute_eq_ok_iff.mp h).elim
  | .retain name location, state, middle, after, block, h, hne, hrest
  | .release name location, state, middle, after, block, h, hne, hrest => by
    cases execute_eq_ok_iff.mp h
    refine hrest.cons_emitted hne (Stack.Alike.refl _) (fun _ => rfl) ?_ ?_ ?_
    · simp [Stmt.reached, Stmt.withoutSpare]
    · simp [Stmt.uses, touch_false]
    · simp [Stmt.cautions]

/-- **The marks are deserved.** -/
theorem swept_executeAll : ∀ (block : List Stmt) {state final : State},
    executeAll block state = .ok () final → state.stack ≠ [] → Swept state final block
  | [], state, final, h, hne => by
    rw [executeAll] at h
    cases h
    exact .nil state
  | stmt :: block, state, final, h, hne => by
    obtain ⟨middle, hfirst, hrest⟩ := executeAll_cons_eq_ok_iff.mp h
    have hmiddle := (extends_execute stmt hfirst hne).ne_nil
    exact swept_execute stmt hfirst hne (swept_executeAll block hrest hmiddle)

end

/-! ### Bodies of functions -/

theorem names_ofFunction (function : FunctionDef) :
    (Tier.ofFunction function).table.map Prod.fst = function.parameters.map (·.name.text) := by
  simp [Tier.ofFunction, parameterEntry, Function.comp_def]

/-- A function whose body can be checked is left without its spare variables, and warned about for
them. Parameters count as used. -/
theorem finished_ofFunction {function : FunctionDef} {file : Stack} {inner : State}
    (hwell : function.WellFormed)
    (h : executeAll function.body { stack := Tier.ofFunction function :: file } = .ok () inner) :
    inner.stack.top.pruned = removeSpare (fun _ => false) function.body ∧
      inner.stack.top.warnings = spareIn function.body := by
  have hne : Tier.ofFunction function :: file ≠ [] := cons_ne_nil _ _
  refine (swept_executeAll function.body h hne).finished (extends_executeAll function.body
    h hne) hne rfl (names_ofFunction function ▸ hwell.distinct) ?_
  simp [Stack.top, Tier.ofFunction, Tier.tracked, parameterEntry]

/-- **What a check leaves of the body of a function** is the body without its spare variables. -/
theorem Checked.body_eq {functions : List FunctionDef} {function checked : FunctionDef}
    (h : Checked functions function checked) (hwell : function.WellFormed) :
    checked.body = removeSpare (fun _ => false) function.body := by
  obtain ⟨inner, hbody, rfl⟩ := h.body
  exact (finished_ofFunction hwell hbody).1

end Direct

/-! ### Functions and programs -/

/-- A function without spare variables. -/
def FunctionDef.withoutSpare (function : FunctionDef) : FunctionDef :=
  { function with body := removeSpare (fun _ => false) function.body }

/-- The warnings about a function. -/
def FunctionDef.cautions (function : FunctionDef) : List Warning :=
  cautionsOfAll function.body ++ spareIn function.body

theorem removeSpare_toStmt (spare : String → Bool) (functions : List FunctionDef) :
    removeSpare spare (functions.map toStmt) =
      (functions.map FunctionDef.withoutSpare).map toStmt := by
  induction functions with
  | nil => rw [map_nil, map_nil, map_nil, removeSpare]
  | cons function functions ih =>
    rw [map_cons, removeSpare, toStmt, Stmt.withoutSpare, spareBehind, ih]
    · rfl
    · simp

theorem cautionsOfAll_toStmt (functions : List FunctionDef) :
    cautionsOfAll (functions.map toStmt) = functions.flatMap FunctionDef.cautions := by
  induction functions with
  | nil => rw [map_nil, cautionsOfAll, flatMap_nil]
  | cons function functions ih =>
    rw [map_cons, cautionsOfAll, toStmt, Stmt.cautions, ih]
    rfl

namespace Direct

/-- Functions that can all be checked are checked one after the other. -/
theorem checkFunctions_of_each {file : Stack} {functions : List FunctionDef}
    {kept : FunctionDef → FunctionDef} {given : FunctionDef → List Warning}
    (h : ∀ function ∈ functions,
      checkFunction file function = ⟨.ok (kept function), given function⟩) :
    checkFunctions file functions = ⟨.ok (functions.map kept), functions.flatMap given⟩ := by
  induction functions with
  | nil => rfl
  | cons function functions ih =>
    rw [forall_mem_cons] at h
    rw [checkFunctions, h.1, ih h.2]
    rfl

end Direct

namespace Execution

open Direct (Tier Stack)

variable {functions : List FunctionDef} {function : FunctionDef}

/-- **The report on a function that keeps the rules.** It is about spare variables, and about the
function alone. -/
theorem checkFunction_eq (hnodup : (functions.map (·.name)).Nodup) (hmem : function ∈ functions)
    (hwell : function.WellFormed) (h : AllowedFunction functions function) :
    Direct.checkFunction (Stack.ofScope (Scope.file functions)) function =
      ⟨.ok function.withoutSpare, function.cautions⟩ := by
  obtain ⟨after, hbody⟩ := h.body
  obtain ⟨inner, hrun, -⟩ := (agree_function hwell h.free).checked hbody
  obtain ⟨hpruned, hspare⟩ := Direct.finished_ofFunction hwell hrun
  have hwarnings : inner.warnings = cautionsOfAll function.body :=
    (Direct.swept_executeAll function.body hrun (cons_ne_nil _ _)).warnings
  refine (Direct.checkFunction_eq_ok_iff hnodup hmem hwell).mpr ⟨?_, h.ends, inner, hrun, ?_, ?_⟩
  · exact fun parameter hparameter => (globals_eq_none_iff _).mp (h.free parameter hparameter)
  · exact congrArg (fun body => { function with body }) hpruned.symm
  · change _ = inner.warnings ++ inner.stack.top.warnings
    rw [hspare, hwarnings]
    rfl

/-- **The report on a file that keeps the rules** is made of the reports on its functions. -/
theorem check_of_allowedFile_eq (h : AllowedFile functions) : Direct.check (functions.map toStmt) =
      ⟨.ok ((functions.map FunctionDef.withoutSpare).map toStmt),
        functions.flatMap FunctionDef.cautions⟩ := by
  unfold Direct.check
  rw [functions_of_toStmt]
  simp only [fileScope_of_allowedFile h]
  rw [Direct.checkFunctions_of_each fun function hmem =>
    checkFunction_eq h.nodup hmem (h.wellFormed function hmem) (h.each function hmem)]
  rfl

/-- **What keeps the rules can be checked.** -/
theorem check_of_allowedFile (h : AllowedFile functions) :
    ∃ out, (Direct.check (functions.map toStmt)).result = .ok out := by
  rw [check_of_allowedFile_eq h]
  exact ⟨_, rfl⟩

end Execution

/-- The report on a program that can be checked. -/
theorem check_eq_of_ok (h : program.check.result = .ok out) :
    program.check = ⟨.ok (removeSpare (fun _ => false) program), cautionsOfAll program⟩ := by
  rw [Ordered.check_eq_direct_check] at h ⊢
  obtain ⟨functions, checked, rfl, -, hfile⟩ := Direct.check_eq_ok h
  rw [Execution.check_of_allowedFile_eq (Execution.allowedFile_of_checkedFile hfile),
    removeSpare_toStmt, cautionsOfAll_toStmt]

theorem eq_removeSpare_of_check (h : program.check.result = .ok out) :
    out = removeSpare (fun _ => false) program := by
  have hreport := check_eq_of_ok h
  rw [hreport] at h
  exact (Except.ok.inj h).symm

namespace Execution

/-- What a check keeps of a program can be tested. -/
theorem exists_kept {program : Program} {P : Program → Prop} [DecidablePred P]
    (h : (match program.check.result with
      | .ok out => decide (P out)
      | .error _ => false) = true) : ∃ out, program.check.result = .ok out ∧ P out := by
  cases hresult : program.check.result with
  | error => rw [hresult] at h; cases h
  | ok out => rw [hresult] at h; exact ⟨out, rfl, of_decide_eq_true h⟩

/-- A program that assigns what it reads to a variable without readers, before and after another
variable of the same name is declared inside. -/
def unreadAnswers : Program :=
  let name (text : String) : Name := ⟨text, default⟩
  let ask : Expr := .call (.name (name "ask")) [] default
  [.function "ask" [] (some (name "String"))
      [.result (.call (.name (name "input")) [] default) default] default,
    .function "main" [] none
      [.declaration (name "String") "answer" default, .assignment (name "answer") ask default,
        .conditional (.name (name "TRUE"))
          [.assignment (name "answer") ask default, .declaration (name "String") "answer" default,
            .assignment (name "answer") ask default,
            .expression (.call (.name (name "print")) [.name (name "answer")] default) default]
          default,
        .assignment (name "answer") (.string "none" default) default,
        .expression (.name (name "FALSE")) default] default]

/-- What is left of `unreadAnswers`: it still asks as often, and the inner variable is there. -/
def keptAnswers : Program :=
  let name (text : String) : Name := ⟨text, default⟩
  let ask : Expr := .call (.name (name "ask")) [] default
  [.function "ask" [] (some (name "String"))
      [.result (.call (.name (name "input")) [] default) default] default,
    .function "main" [] none
      [.expression ask default,
        .conditional (.name (name "TRUE"))
          [.expression ask default, .declaration (name "String") "answer" default,
            .assignment (name "answer") ask default,
            .expression (.call (.name (name "print")) [.name (name "answer")] default) default]
          default] default]

end Execution

/-- **Spare variables go, and everything else stays.** What a check keeps of a program is the
program without its spare variables, and the warnings are one for each spare variable, when its body
ends, and one for each expression without an effect, when it is reached. A variable is told from
others of its name by where the name is declared and used, although the check goes by names. -/
theorem check_removesSpare {program out : Program} (h : program.check.result = .ok out) :
    out = removeSpare (fun _ => false) program ∧ program.check.warnings = cautionsOfAll program :=
  ⟨eq_removeSpare_of_check h, by rw [check_eq_of_ok h]⟩

open Execution in
/-- The outer variable of `unreadAnswers` is spare, and the calls that were to give it a value stay.
The inner one has the same name and is used. -/
theorem check_removesSpare_unreadAnswers : ∃ out, unreadAnswers.check.result = .ok out ∧
    out = removeSpare (fun _ => false) unreadAnswers ∧
      unreadAnswers.check.warnings = cautionsOfAll unreadAnswers ∧
      removeSpare (fun _ => false) unreadAnswers = keptAnswers ∧
      cautionsOfAll unreadAnswers =
        [⟨.noEffect, default⟩, ⟨.unusedVariable "answer", default⟩] := by
  obtain ⟨out, hout, -⟩ : ∃ out, unreadAnswers.check.result = .ok out ∧ True :=
    exists_kept (by decide +kernel)
  obtain ⟨hkept, hwarnings⟩ := check_removesSpare hout
  exact ⟨out, hout, hkept, hwarnings, rfl, by decide +kernel⟩

end FrontEnd
