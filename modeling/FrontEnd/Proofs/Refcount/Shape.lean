import FrontEnd.Proofs.Refcount.Order

/-!
# What lowering does to its state

Lowering an expression takes new names for its temporaries and changes nothing else of its state
(`Lowering.Later`). Lowering a statement may also add variables to the innermost body. These are the
facts about the state of lowering that hold whatever the lowered program is used for, with the
actions of lowering written out as functions of the state.
-/

namespace FrontEnd

open List

/-- A name is passed and returned as it is, all else may need a temporary. -/
theorem Expr.name_or_ne (value : Expr) :
    (∃ name, value = .name name) ∨ ∀ name, value ≠ .name name := by
  rw [← not_exists]
  exact Classical.em _

namespace Refcount

/-- A state that has the same variables, and more names that are taken. -/
structure Lowering.Later (state after : Lowering) : Prop where
  frames : after.frames = state.frames
  returnTypes : after.returnTypes = state.returnTypes
  taken : state.names.taken ⊆ after.names.taken

namespace Lowering.Later

theorem refl (state : Lowering) : state.Later state := ⟨rfl, rfl, Subset.refl _⟩

theorem trans {first second third : Lowering} (h : first.Later second) (h' : second.Later third) :
    first.Later third :=
  ⟨h'.frames.trans h.frames, h'.returnTypes.trans h.returnTypes, Subset.trans h.taken h'.taken⟩

end Lowering.Later

/-- A state that may have more variables in the innermost body, and more names that are taken. -/
structure Lowering.Grown (state after : Lowering) : Prop where
  tail : after.frames.tail = state.frames.tail
  length : after.frames.length = state.frames.length
  returnTypes : after.returnTypes = state.returnTypes
  taken : state.names.taken ⊆ after.names.taken

namespace Lowering.Grown

theorem refl (state : Lowering) : state.Grown state := ⟨rfl, rfl, rfl, Subset.refl _⟩

theorem trans {first second third : Lowering} (h : first.Grown second) (h' : second.Grown third) :
    first.Grown third :=
  ⟨h'.tail.trans h.tail, h'.length.trans h.length, h'.returnTypes.trans h.returnTypes,
    Subset.trans h.taken h'.taken⟩

end Lowering.Grown

theorem Lowering.Later.grown {state after : Lowering} (h : state.Later after) : state.Grown after :=
  ⟨by rw [h.frames], by rw [h.frames], h.returnTypes, h.taken⟩

namespace Frames

theorem tail_declareAll (frames : Frames) (locals : List Local) :
    (locals.foldl declare frames).tail = frames.tail := by
  induction locals generalizing frames with
  | nil => rfl
  | cons v locals ih =>
    rw [foldl_cons, ih]
    cases frames <;> rfl

theorem length_declareAll (frames : Frames) (locals : List Local) :
    (locals.foldl declare frames).length = frames.length := by
  induction locals generalizing frames with
  | nil => rfl
  | cons v locals ih =>
    rw [foldl_cons, ih]
    cases frames <;> rfl

end Frames

namespace Lower

variable {state : Lowering}

theorem bind_apply {α β : Type} (action : Lower α) (next : α → Lower β) :
    (action >>= next) state = next (action state).1 (action state).2 :=
  rfl

theorem get_apply : (MonadState.get : Lower Lowering) state = (state, state) :=
  rfl

/-! ### Temporaries -/

theorem later_makeTemp (value : Expr) (type : String) : state.Later (makeTemp value type state).2 :=
  ⟨rfl, rfl, subset_cons_self _ _⟩

/-- A temporary has a name that was not taken. -/
theorem name_makeTemp_not_mem (value : Expr) (type : String) :
    (makeTemp value type state).1.place.name ∉ state.names.taken :=
  state.names.numbered_nextNumber_not_mem

theorem name_makeTemp_mem (value : Expr) (type : String) :
    (makeTemp value type state).1.place.name ∈ (makeTemp value type state).2.names.taken :=
  mem_cons_self

/-! ### Expressions -/

theorem hoist_of_not_call {expression : Expr} (h : expression.isCall = false) :
    hoist expression state = ((expression, []), state) := by
  cases expression with
  | call => cases h
  | name | integer | string => rw [hoist]; rfl; simp

theorem hoist_call (function : Expr) (arguments : List Expr) (location : Location) :
    hoist (.call function arguments location) state =
        ((.call function (hoistArguments arguments state).1.1 location,
          (hoistArguments arguments state).1.2), (hoistArguments arguments state).2) := by
  rw [hoist]
  rfl

theorem hoistArguments_nil : hoistArguments [] state = (([], []), state) := by
  rw [hoistArguments]
  rfl

theorem hoistArguments_name (name : Name) (arguments : List Expr) :
      hoistArguments (.name name :: arguments) state =
        ((.name name :: (hoistArguments arguments state).1.1, (hoistArguments arguments state).1.2),
          (hoistArguments arguments state).2) := by
  rw [hoistArguments]
  rfl

/-- An argument that is no variable is moved to a temporary behind those in it, if it is to be
moved. -/
def hoistArgument (argument : Expr) : Lower (Expr × List Temp) := do
  let (inner, temps) ← hoist argument
  settle inner temps

theorem hoistArguments_cons {argument : Expr} (h : ∀ name, argument ≠ .name name)
    (arguments : List Expr) :
    hoistArguments (argument :: arguments) state = (((hoistArgument argument state).1.1 ::
          (hoistArguments arguments (hoistArgument argument state).2).1.1,
        (hoistArgument argument state).1.2 ++
          (hoistArguments arguments (hoistArgument argument state).2).1.2),
        (hoistArguments arguments (hoistArgument argument state).2).2) := by
  rw [hoistArguments]
  · rfl
  · simpa using h

/-- The type of an expression that is no variable does not depend on the variables. -/
theorem typeOf_eq_valueType {expression : Expr} (h : ∀ name, expression ≠ .name name) :
    state.typeOf expression = valueType state.returnTypes expression := by
  cases expression with
  | name name => exact absurd rfl (h name)
  | integer | string => rfl
  | call function => cases function <;> rfl

theorem valueType_hoist (types : ReturnTypes) (expression : Expr) :
    valueType types (hoist expression state).1.1 = valueType types expression := by
  cases expression with
  | call function =>
    rw [hoist_call]
    cases function <;> rfl
  | name | integer | string => rw [hoist_of_not_call rfl]

theorem hoist_ne_name {expression : Expr} (h : ∀ name, expression ≠ .name name) (name : Name) :
    (hoist expression state).1.1 ≠ .name name := by
  cases expression with
  | call => rw [hoist_call]; simp
  | name | integer | string => rw [hoist_of_not_call rfl]; exact h name

theorem later_settle (argument : Expr) (temps : List Temp) :
    state.Later (settle argument temps state).2 := by
  rw [settle, bind_apply, get_apply]
  cases state.heapTypeOf argument with
  | some type => exact later_makeTemp argument type
  | none => exact .refl state

theorem later_hoistArgument {argument : Expr} (h : state.Later (hoist argument state).2) :
    state.Later (hoistArgument argument state).2 :=
  h.trans (later_settle _ _)

mutual

theorem later_hoist : ∀ (expression : Expr)
    {state : Lowering}, state.Later (hoist expression state).2
  | .call function arguments location, state => by
    rw [hoist_call]
    exact later_hoistArguments arguments
  | .name name, state | .integer .., state | .string .., state =>
    by rw [hoist_of_not_call rfl]; exact .refl state

theorem later_hoistArguments : ∀ (arguments : List Expr) {state : Lowering},
    state.Later (hoistArguments arguments state).2
  | [], state => by rw [hoistArguments_nil]; exact .refl state
  | argument :: arguments, state => by
    rcases argument.name_or_ne with ⟨name, rfl⟩ | hname
    · rw [hoistArguments_name]
      exact later_hoistArguments arguments
    · rw [hoistArguments_cons hname]
      exact (later_hoistArgument (later_hoist argument)).trans (later_hoistArguments arguments)

end

/-- What becomes of an argument that is no variable. -/
theorem hoistArgument_eq {argument : Expr} (h : ∀ name, argument ≠ .name name) :
    hoistArgument argument state =
      match (valueType state.returnTypes argument).filter isHeap with
      | some type =>
        let temp := makeTemp (hoist argument state).1.1 type (hoist argument state).2
        ((temp.1.use, (hoist argument state).1.2 ++ [temp.1]), temp.2)
      | none => hoist argument state := by
  have htype : (hoist argument state).2.heapTypeOf (hoist argument state).1.1 =
      (valueType state.returnTypes argument).filter isHeap := by
    rw [Lowering.heapTypeOf, typeOf_eq_valueType (hoist_ne_name h), valueType_hoist,
      (later_hoist argument).returnTypes]
  simp only [hoistArgument, settle, bind_apply, get_apply, htype]
  cases (valueType state.returnTypes argument).filter isHeap <;> rfl

/-- Temporaries that are new: their names were free, and they differ. All of them are counted. -/
structure NewTemps (before after : List String) (temps : List Temp) : Prop where
  free : ∀ temp ∈ temps, temp.place.name ∉ before
  taken : ∀ temp ∈ temps, temp.place.name ∈ after
  nodup : (temps.map (·.place.name)).Nodup
  counted : ∀ temp ∈ temps, temp.place.isCounted = true

namespace NewTemps

theorem nil (before after : List String) : NewTemps before after [] :=
  ⟨by simp, by simp, .nil, by simp⟩

theorem append {before middle after : List String} {temps temps' : List Temp}
    (h : NewTemps before middle temps) (h' : NewTemps middle after temps')
    (hbefore : before ⊆ middle) (hafter : middle ⊆ after) :
    NewTemps before after (temps ++ temps') where
  free := forall_mem_append.mpr ⟨h.free, fun temp htemp hmem => h'.free temp htemp (hbefore hmem)⟩
  taken := forall_mem_append.mpr ⟨fun temp htemp => hafter (h.taken temp htemp), h'.taken⟩
  nodup := by
    rw [map_append, nodup_append]
    refine ⟨h.nodup, h'.nodup, fun name hname other hother => ?_⟩
    obtain ⟨temp, htemp, rfl⟩ := mem_map.mp hname
    obtain ⟨temp', htemp', rfl⟩ := mem_map.mp hother
    exact fun heq => h'.free temp' htemp' (heq ▸ h.taken temp htemp)
  counted := forall_mem_append.mpr ⟨h.counted, h'.counted⟩

end NewTemps

theorem newTemps_makeTemp (value : Expr) {type : String} (h : isHeap type = true) :
    NewTemps state.names.taken (makeTemp value type state).2.names.taken
      [(makeTemp value type state).1] where
  free := forall_mem_singleton.mpr (name_makeTemp_not_mem value type)
  taken := forall_mem_singleton.mpr (name_makeTemp_mem value type)
  nodup := pairwise_singleton _ _
  counted := forall_mem_singleton.mpr h

theorem newTemps_hoistArgument {argument : Expr} (hname : ∀ name, argument ≠ .name name)
    (h : NewTemps state.names.taken (hoist argument state).2.names.taken
      (hoist argument state).1.2) :
    NewTemps state.names.taken (hoistArgument argument state).2.names.taken
      (hoistArgument argument state).1.2 := by
  rw [hoistArgument_eq hname]
  cases htype : (valueType state.returnTypes argument).filter isHeap with
  | none => exact h
  | some type =>
    exact h.append (newTemps_makeTemp _ (Option.filter_eq_some_iff.mp htype).2)
      (later_hoist argument).taken (later_makeTemp (hoist argument state).1.1 type).taken

mutual

theorem newTemps_hoist : ∀ (expression : Expr) (state : Lowering),
    NewTemps state.names.taken (hoist expression state).2.names.taken (hoist expression state).1.2
  | .call function arguments location, state => by
    rw [hoist_call]
    exact newTemps_hoistArguments arguments
  | .name name, state | .integer .., state | .string .., state =>
    by rw [hoist_of_not_call rfl]; exact .nil _ _

theorem newTemps_hoistArguments : ∀ (arguments : List Expr) {state : Lowering},
    NewTemps state.names.taken (hoistArguments arguments state).2.names.taken
      (hoistArguments arguments state).1.2
  | [], state => by rw [hoistArguments_nil]; exact .nil _ _
  | argument :: arguments, state => by
    rcases argument.name_or_ne with ⟨name, rfl⟩ | hname
    · rw [hoistArguments_name]
      exact newTemps_hoistArguments arguments
    · rw [hoistArguments_cons hname]
      exact (newTemps_hoistArgument hname (newTemps_hoist argument _)).append
        (newTemps_hoistArguments arguments) (later_hoistArgument (later_hoist argument)).taken
        (later_hoistArguments arguments).taken

end

/-! ### Statements -/

/-- The type of what is left of an expression, when its temporaries were made. -/
theorem typeOf_hoist {expression : Expr} (h : ∀ name, expression ≠ .name name) :
    (hoist expression state).2.typeOf (hoist expression state).1.1 =
      valueType state.returnTypes expression := by
  rw [typeOf_eq_valueType (hoist_ne_name h), valueType_hoist, (later_hoist expression).returnTypes]

theorem isCall_hoist (expression : Expr) :
    (hoist expression state).1.1.isCall = expression.isCall := by
  cases expression with
  | call => rw [hoist_call]; rfl
  | name | integer | string => rw [hoist_of_not_call rfl]

/-- The lowered form of an expression by itself: a value on the heap that nobody wants gets a
temporary, which is released at once. -/
theorem expression_eq (value : Expr) (location : Location) : expression value location state =
      match value.isCall, (valueType state.returnTypes value).filter isHeap with
      | true, some type =>
        let unwanted := makeTemp (hoist value state).1.1 type (hoist value state).2
        ((hoist value state).1.2.flatMap Temp.setup ++ (unwanted.1.setup ++ [unwanted.1.release]) ++
          releaseTemps (hoist value state).1.2, unwanted.2)
      | _, _ =>
        ((hoist value state).1.2.flatMap Temp.setup ++
          [.expression (hoist value state).1.1 location] ++
          releaseTemps (hoist value state).1.2, (hoist value state).2) := by
  simp only [expression, bind_apply, get_apply, isCall_hoist]
  cases hcall : value.isCall with
  | false => rfl
  | true =>
    have hname : ∀ name, value ≠ .name name := by rintro name rfl; cases hcall
    rw [Lowering.heapTypeOf, typeOf_hoist hname]
    cases (valueType state.returnTypes value).filter isHeap <;> rfl

/-- The lowered form of an assignment: a variable that may have an old value releases it, when the
new one is safe in a temporary. -/
theorem assignment_eq (fresh : Bool) (target : Name) (value : Expr) (location : Location) :
    assignment fresh target value location state =
      match (state.frames.lookup target.text).filter (fun v => isHeap v.type), fresh with
      | none, _ =>
        ((hoist value state).1.2.flatMap Temp.setup ++
          [.assignment target (hoist value state).1.1 location] ++
            releaseTemps (hoist value state).1.2, (hoist value state).2)
      | some _, true =>
        ((hoist value state).1.2.flatMap Temp.setup ++ (match (hoist value state).1.1 with
          | .name _ =>
            [.assignment target (hoist value state).1.1 location,
              .retain target.text target.location]
          | _ => [.assignment target (hoist value state).1.1 location]) ++
          releaseTemps (hoist value state).1.2, (hoist value state).2)
      | some v, false =>
        let temp := makeTemp (hoist value state).1.1 v.type (hoist value state).2
        ((hoist value state).1.2.flatMap Temp.setup ++
          (temp.1.setup ++
            [.release target.text v.location, .assignment target temp.1.use location]) ++
          releaseTemps (hoist value state).1.2, temp.2) := by
  rw [← (later_hoist value).frames]
  simp only [assignment, bind_apply, get_apply]
  cases ((hoist value state).2.frames.lookup target.text).filter fun v => isHeap v.type with
  | none => rfl
  | some =>
    cases fresh with
    | false => rfl
    | true => cases (hoist value state).1.1 <;> rfl

theorem resultName_eq (name : Name) (location : Location) : resultName name location state =
      ((if (state.frames.lookup name.text).any fun v => !v.owned && isHeap v.type then
          [.retain name.text name.location] else []) ++
        state.frames.releaseAll (some name.text) ++ [.result (.name name) location], state) :=
  rfl

/-- The lowered form of the return of a value that is not in a variable: it gets a temporary, unless
it has no type at all. -/
theorem resultValue_eq {value : Expr} (h : ∀ name, value ≠ .name name) (location : Location) :
    resultValue value location state =
      match valueType state.returnTypes value with
      | some type =>
        let temp := makeTemp (hoist value state).1.1 type (hoist value state).2
        ((hoist value state).1.2.flatMap Temp.setup ++ temp.1.setup ++
          releaseTemps (hoist value state).1.2 ++ state.frames.releaseAll none ++
          [.result temp.1.use location], temp.2)
      | none =>
        ((hoist value state).1.2.flatMap Temp.setup ++ [] ++ releaseTemps (hoist value state).1.2 ++
          state.frames.releaseAll none ++ [.result (hoist value state).1.1 location],
          (hoist value state).2) := by
  rw [← typeOf_hoist h, ← (later_hoist value).frames]
  simp only [resultValue, bind_apply, get_apply]
  cases (hoist value state).2.typeOf (hoist value state).1.1 <;> rfl

theorem result_of_ne_name {value : Expr} (h : ∀ name, value ≠ .name name) (location : Location) :
    result value location = resultValue value location := by
  cases value with
  | name name => exact absurd rfl (h name)
  | integer | string | call => rfl

/-- What the state of lowering is inside of the body behind a condition. The temporaries of the
condition are variables of the body around it. -/
def opened (condition : Expr) (state : Lowering) : Lowering :=
  let hoisted := hoist condition state
  { hoisted.2 with
    frames := [] :: (hoisted.1.2.map Temp.place).foldl Frames.declare hoisted.2.frames }

theorem frames_opened (condition : Expr) : (opened condition state).frames =
      [] :: ((hoist condition state).1.2.map Temp.place).foldl Frames.declare state.frames := by
  have hframes : (hoist condition state).2.frames = state.frames := (later_hoist condition).frames
  rw [opened, hframes]

theorem statement_conditional_eq (previous : Option Stmt) (condition : Expr) (body : List Stmt)
    (location : Location) :
    statement previous (.conditional condition body location) state =
      let hoisted := hoist condition state
      let lowered := block none body (opened condition state)
      (hoisted.1.2.flatMap Temp.setup ++ [.conditional hoisted.1.1
          (if endsWithResult body then lowered.1
            else lowered.1 ++ lowered.2.frames.releaseInnermost)
          location],
        { lowered.2 with frames := lowered.2.frames.tail }) := by
  rw [statement]
  rfl

theorem block_cons_eq (previous : Option Stmt) (stmt : Stmt) (stmts : List Stmt) :
    block previous (stmt :: stmts) state =
      ((statement previous stmt state).1 ++
        (block (some stmt) stmts (statement previous stmt state).2).1,
        (block (some stmt) stmts (statement previous stmt state).2).2) := by
  rw [block]
  rfl

theorem later_makeTemp_hoist (value : Expr) (type : String) :
    state.Later (makeTemp (hoist value state).1.1 type (hoist value state).2).2 :=
  (later_hoist value).trans (later_makeTemp _ type)

theorem later_expression (value : Expr) (location : Location) :
    state.Later (expression value location state).2 := by
  rw [expression_eq]
  split
  · next type _ _ => exact later_makeTemp_hoist value type
  · exact later_hoist value

theorem later_assignment (fresh : Bool) (target : Name) (value : Expr) (location : Location) :
    state.Later (assignment fresh target value location state).2 := by
  rw [assignment_eq]
  split
  · exact later_hoist value
  · exact later_hoist value
  · next v _ => exact later_makeTemp_hoist value v.type

theorem later_result (value : Expr) (location : Location) :
    state.Later (result value location state).2 := by
  rcases value.name_or_ne with ⟨name, rfl⟩ | hname
  · exact .refl state
  · rw [result_of_ne_name hname, resultValue_eq hname]
    split
    · next type _ => exact later_makeTemp_hoist value type
    · exact later_hoist value

mutual

theorem grown_statement (previous : Option Stmt) : ∀ (stmt : Stmt) (state : Lowering),
    state.Grown (statement previous stmt state).2
  | .declaration type name location, state => by
    rw [statement]
    exact ⟨Frames.tail_declareAll _ _, Frames.length_declareAll _ _, rfl, Subset.refl _⟩
  | .assignment target value location, state => by
    rw [statement]
    exact (later_assignment _ _ _ _).grown
  | .conditional condition body location, state => by
    rw [statement_conditional_eq]
    have hhoist : state.Later (hoist condition state).2 := later_hoist condition
    have hbody := grown_block none body (opened condition state)
    refine ⟨?_, ?_, hbody.returnTypes.trans hhoist.returnTypes,
      Subset.trans hhoist.taken hbody.taken⟩
    · change (block none body (opened condition state)).2.frames.tail.tail = _
      rw [hbody.tail, frames_opened, tail_cons, Frames.tail_declareAll]
    · change (block none body (opened condition state)).2.frames.tail.length = _
      rw [length_tail, hbody.length, frames_opened, length_cons, Nat.add_sub_cancel,
        Frames.length_declareAll]
  | .result value location, state => by
    rw [statement]
    exact (later_result _ _).grown
  | .expression value location, state => by
    rw [statement]
    exact (later_expression _ _).grown
  | .function .., state
  | .retain .., state
  | .release .., state => by rw [statement] <;> first | exact .refl state | simp

theorem grown_block (previous : Option Stmt) : ∀ (stmts : List Stmt) (state : Lowering),
    state.Grown (block previous stmts state).2
  | [], state => by rw [block]; exact .refl state
  | stmt :: stmts, state => by
    rw [block_cons_eq]
    exact (grown_statement previous stmt _).trans (grown_block (some stmt) stmts _)

end

end Lower

end Refcount

end FrontEnd
