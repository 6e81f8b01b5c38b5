import FrontEnd.Proofs.Cursor.Composed
import FrontEnd.Tree.Statements

/-!
# Bounds do not matter

Reading is bounded: `expressionWithin` and `statementWithin` by the number of levels that they may
nest, and the loops over elements, calls and statements by a number of rounds. Each level and each
round takes a token, and the bounds are numbers of items, so they are never met.

This is said by comparing two runs. `SameWithin count p q` says that two actions do the same in
front of at most `count` items, and `Composed least p` that an action which succeeds takes at least
so many of them. From the two follows that a run with one sufficient bound is the run with any
other, and so that the actions satisfy the equations one would write down without bounds:
`expression_eq`, `followedBy_eq`, `elementsFrom_eq`, `bodyFrom_eq` and `statement_eq`.
-/

namespace FrontEnd

namespace Parse

variable {α β : Type} {cursor : Cursor} {count bound bound' : Nat} {inner : Parse Group}

/-! ### Names and single tokens -/

theorem composed_name : Composed 1 name := by
  refine (composed_expect _ _).before fun token => ?_
  exact .ite (.throw_bind _) (.pure _)

theorem composed_primary : Composed 1 primary := by
  refine Composed.comingUp.after fun token => ?_
  split
  · exact composed_name.before fun _ => .pure _
  · exact Composed.pop.before fun _ => .pure _
  · refine Composed.pop.before fun token => ?_
    split
    · exact .pure _
    · exact .throw _
  · exact .throw _

/-! ### The same outcome -/

namespace SameWithin

variable {count fewer : Nat} {action other : Parse α} {next behind : α → Parse β} {least : Nat}

protected theorem refl (action : Parse α) : SameWithin count action action :=
  fun _ _ => rfl

/-- Two actions that do the same as a third one. -/
theorem trans_left {third : Parse α} (h : SameWithin count action other)
    (h' : SameWithin count action third) : SameWithin count other third :=
  fun cursor hcursor => (h cursor hcursor).symm.trans (h' cursor hcursor)

theorem mono (h : SameWithin count action other) (hle : fewer ≤ count) :
    SameWithin fewer action other :=
  fun cursor hcursor => h cursor (Nat.le_trans hcursor hle)

/-- Two actions one after the other. What the first takes is not there for the second. -/
protected theorem bind (h : SameWithin count action other) (hcomposed : Composed least other)
    (hnext : ∀ a, SameWithin (count - least) (next a) (behind a)) :
    SameWithin count (action >>= next) (other >>= behind) := by
  intro cursor hcursor
  cases hrun : other cursor with
  | error =>
    rw [bind_of_error ((h cursor hcursor).trans hrun), bind_of_error hrun]
  | ok a after =>
    have htaken := (hcomposed.uniform cursor).consumes hrun
    rw [bind_of_ok ((h cursor hcursor).trans hrun), bind_of_ok hrun]
    exact hnext a after (by omega)

/-- The same action in front. -/
theorem after (hcomposed : Composed least action)
    (hnext : ∀ a, SameWithin (count - least) (next a) (behind a)) :
    SameWithin count (action >>= next) (action >>= behind) :=
  (SameWithin.refl action).bind hcomposed hnext

/-- Asking for the number of items gives a bound that is met exactly. -/
theorem size_bind {next behind : Nat → Parse β}
    (h : ∀ size ≤ count, SameWithin size (next size) (behind size)) :
    SameWithin count (Parse.size >>= next) (Parse.size >>= behind) :=
  fun cursor hcursor => h cursor.size hcursor cursor (Nat.le_refl _)

protected theorem ite {condition : Prop} [Decidable condition] {yes no yes' no' : Parse α}
    (hyes : SameWithin count yes yes') (hno : SameWithin count no no') :
    SameWithin count (if condition then yes else no) (if condition then yes' else no') := by
  split
  · exact hyes
  · exact hno

end SameWithin

/-- Where nothing is left, looking ahead is the end of the file. -/
theorem comingUp_of_size_eq_zero (h : cursor.size = 0) :
    comingUp 1 cursor = .error (.error Cause.unexpectedEndOfFile.unlocated) cursor := by
  obtain ⟨ahead, rest, last⟩ := cursor
  obtain ⟨rfl, rfl⟩ : ahead = [] ∧ rest = [] := by
    simpa [Cursor.size, List.length_eq_zero_iff] using h
  rfl

theorem nextIs_of_size_eq_zero (h : cursor.size = 0) (kind : Token.Kind) (value : String) :
    nextIs kind value cursor = .ok false cursor := by
  have hlook : (comingUp 1 >>= fun token => pure (token.is kind value)) cursor =
      .error (.error Cause.unexpectedEndOfFile.unlocated) cursor :=
    bind_of_error (comingUp_of_size_eq_zero h)
  unfold nextIs unlessEnded
  rw [hlook]
  rfl

/-- With no items left, an action that has to look is stopped by the end of the file. -/
theorem sameWithin_zero_endOfFile (next : Token → Parse α) :
    SameWithin 0 endOfFile (comingUp 1 >>= next) := by
  intro cursor hcursor
  rw [bind_of_error (comingUp_of_size_eq_zero (Nat.le_zero.mp hcursor))]
  rfl

/-- **Rounds that take an item each.** Two loops do the same in front of at most as many items as
they have rounds, if they end alike where nothing is left, and a round more takes what is the same
to one item more. -/
theorem sameWithin_rounds {σ : Type} {loop other : Nat → σ → Parse α} {ended : σ → Parse α}
    (hended : ∀ rounds state, SameWithin 0 (ended state) (loop rounds state))
    (hended' : ∀ rounds state, SameWithin 0 (ended state) (other rounds state))
    (hround : ∀ {fewer rounds rounds'}, fewer < count →
      (∀ state, SameWithin fewer (loop rounds state) (other rounds' state)) →
      ∀ state, SameWithin (fewer + 1) (loop (rounds + 1) state) (other (rounds' + 1) state))
    (hbound : count ≤ bound) (hbound' : count ≤ bound') (state : σ) :
    SameWithin count (loop bound state) (other bound' state) := by
  induction count generalizing bound bound' state with
  | zero => exact (hended bound state).trans_left (hended' bound' state)
  | succ count ih =>
    obtain ⟨bound, rfl⟩ : ∃ n, bound = n + 1 := ⟨bound - 1, by omega⟩
    obtain ⟨bound', rfl⟩ : ∃ n, bound' = n + 1 := ⟨bound' - 1, by omega⟩
    refine hround (Nat.lt_succ_self count) (fun state => ?_) state
    exact ih (fun hfewer => hround (by omega)) (by omega) (by omega) state

/-- **As many rounds as there are items.** Where the number of rounds does not matter, there may as
well be one more. -/
theorem size_bind_eq {loop : Nat → Parse α} {action : Parse α}
    (hsame : ∀ {count rounds rounds'},
      count ≤ rounds → count ≤ rounds' → SameWithin count (loop rounds) (loop rounds'))
    (hmore : ∀ count, SameWithin count (loop (count + 1)) action) : size >>= loop = action := by
  funext cursor
  change loop cursor.size cursor = _
  rw [← hmore cursor.size cursor (Nat.le_refl _)]
  exact hsame (Nat.le_refl _) (Nat.le_succ _) cursor (Nat.le_refl _)

/-! ### Lists -/

/-- What is read behind an element of a list: the end of the list, or a comma and `again` the rest
of it. -/
def listTail (stop : String) (again : List α → Parse (List α × Token)) (found : List α) :
    Parse (List α × Token) := do
  if (← comingUp 1).isOperator stop then
    return (found, ← pop)
  let comma ← expectOperator ","
  let next ← comingUp 1
  if next.isOperator "," then
    fail (Cause.doubleComma.located (← span comma.location next.location))
  if next.isOperator stop then
    return (found, ← pop)
  again found

/-- The elements of a list up to `stop`, without a bound. -/
def elementsFrom (stop : String) (element : Parse α) (before : List α) :
    Parse (List α × Token) := do
  elements stop element (← size) before

section Lists

variable {stop : String} {element other : Parse α} {count : Nat}
  {again : List α → Parse (List α × Token)} {start : String}

theorem composed_listTail (h : ∀ found, Composed 0 (again found)) (found : List α) :
    Composed 1 (listTail stop again found) := by
  refine Composed.comingUp.after fun token => ?_
  split
  · exact Composed.pop.before fun _ => .pure _
  · refine (composed_expect _ _).before fun comma => ?_
    refine Composed.comingUp.after fun next => ?_
    refine .ite ((composed_span _ _).after fun _ => .throw_bind _) ?_
    exact .ite ((Composed.pop.before fun _ => .pure _).some) (h found)

theorem sameWithin_listTail {again' : List α → Parse (List α × Token)}
    (h : ∀ found, SameWithin (count - 1) (again found) (again' found)) (found : List α) :
    SameWithin count (listTail stop again found) (listTail stop again' found) := by
  refine .after Composed.comingUp fun token => .ite (.refl _) ?_
  refine .after (composed_expect _ _) fun comma => .after Composed.comingUp fun next => ?_
  exact .ite (.refl _) (.ite (.refl _) (h found))

/-- The rounds of a list do not matter, as long as there are as many as items. -/
theorem sameWithin_elements (h : SameWithin count element other) (hcomposed : Composed 0 other)
    {rounds rounds' : Nat} (hrounds : count ≤ rounds) (hrounds' : count ≤ rounds')
    (before : List α) :
    SameWithin count (elements stop element rounds before)
      (elements stop other rounds' before) := by
  have hended (element : Parse α) (rounds : Nat) (before : List α) :
      SameWithin 0 endOfFile (elements stop element rounds before) := by
    cases rounds with
    | zero => exact .refl _
    | succ => exact sameWithin_zero_endOfFile _
  refine sameWithin_rounds (hended element) (hended other) (fun hfewer ih before => ?_) hrounds
    hrounds' before
  refine .after Composed.comingUp fun first => .ite (.refl _) ?_
  exact (h.mono hfewer).bind hcomposed fun a => sameWithin_listTail ih (before ++ [a])

theorem elementsFrom_eq (hcomposed : Composed 0 element) (before : List α) :
    elementsFrom stop element before = (do
      let first ← comingUp 1
      if first.isOperator "," then
        fail (Cause.leadingComma.located first.location)
      listTail stop (elementsFrom stop element) (before ++ [← element])) := by
  refine size_bind_eq
    (fun hle hle' => sameWithin_elements (.refl element) hcomposed hle hle' before) fun count => ?_
  refine .after Composed.comingUp fun first => .ite (.refl _) ?_
  refine .after hcomposed fun a =>
    sameWithin_listTail (fun found after hafter => ?_) (before ++ [a])
  exact sameWithin_elements (.refl element) hcomposed (by omega) (Nat.le_refl _) found after
    (Nat.le_refl _)

theorem composed_elementsFrom (h : Composed 0 element) (before : List α) :
    Composed 1 (elementsFrom stop element before) := by
  have hrounds (rounds : Nat) (before : List α) :
      Composed 1 (elements stop element rounds before) := by
    induction rounds generalizing before with
    | zero => exact .throw _
    | succ rounds ih =>
      refine Composed.comingUp.after fun first => .ite (.throw_bind _) ?_
      exact h.after fun a => composed_listTail (fun found => (ih found).some) (before ++ [a])
  exact .size_bind (fun rounds => hrounds rounds before) fun hle =>
    sameWithin_elements (.refl element) h (Nat.le_refl _) hle before

theorem composed_commaList (h : Composed 0 element) :
    Composed 1 (commaList start stop element) := by
  refine (composed_expect _ _).before fun _ => Composed.comingUp.after fun token => ?_
  refine .ite ((Composed.pop.before fun _ => .pure _).some) ?_
  exact (composed_elementsFrom h []).some

theorem sameWithin_commaList (h : SameWithin count element other) (hcomposed : Composed 0 other) :
    SameWithin count (commaList start stop element) (commaList start stop other) := by
  refine .after (composed_expect _ _) fun _ => .after Composed.comingUp fun token => ?_
  refine .ite (.refl _) (.size_bind fun size hsize => ?_)
  exact sameWithin_elements (h.mono (by omega)) hcomposed (Nat.le_refl _) (Nat.le_refl _) []

end Lists

/-! ### Expressions -/

/-- The calls behind an expression, without a bound. -/
def followedBy (arguments : Parse (List Expr × Token)) (callee : Expr) : Parse Expr := do
  calls arguments (← size) callee

section Calls

variable {arguments others : Parse (List Expr × Token)} {count : Nat}

/-- The rounds of calls do not matter, as long as there are as many as items. -/
theorem sameWithin_calls (h : SameWithin count arguments others) (hcomposed : Composed 1 others)
    {rounds rounds' : Nat} (hrounds : count ≤ rounds) (hrounds' : count ≤ rounds') (callee : Expr) :
    SameWithin count (calls arguments rounds callee) (calls others rounds' callee) := by
  have hended (arguments : Parse (List Expr × Token)) (rounds : Nat) (callee : Expr) :
      SameWithin 0 (pure callee) (calls arguments rounds callee) := by
    cases rounds with
    | zero => exact .refl _
    | succ =>
      intro cursor hcursor
      have hnext := nextIs_of_size_eq_zero (Nat.le_zero.mp hcursor) .operator "("
      unfold calls
      rw [bind_of_ok hnext]
      rfl
  refine sameWithin_rounds (hended arguments) (hended others) (fun hfewer ih callee => ?_) hrounds
    hrounds' callee
  refine .after (composed_nextIs _ _) fun more => .ite ?_ (.refl _)
  refine (h.mono hfewer).bind hcomposed fun result => .after (composed_span _ _) fun location => ?_
  exact ih _

theorem followedBy_eq (hcomposed : Composed 1 arguments) (callee : Expr) :
    followedBy arguments callee = (do
      if ← nextIs .operator "(" then
        let (found, close) ← arguments
        followedBy arguments (.call callee found (← span callee.location close.location))
      else
        return callee) := by
  refine size_bind_eq
    (fun hle hle' => sameWithin_calls (.refl arguments) hcomposed hle hle' callee) fun count => ?_
  refine .after (composed_nextIs _ _) fun more => .ite ?_ (.refl _)
  refine .after hcomposed fun result => .after (composed_span _ _) fun location after hafter => ?_
  exact sameWithin_calls (.refl arguments) hcomposed (by omega) (Nat.le_refl _) _ after
    (Nat.le_refl _)

theorem composed_followedBy (h : Composed 1 arguments) (callee : Expr) :
    Composed 0 (followedBy arguments callee) := by
  have hrounds (rounds : Nat) (callee : Expr) : Composed 0 (calls arguments rounds callee) := by
    induction rounds generalizing callee with
    | zero => exact .pure _
    | succ rounds ih =>
      refine (composed_nextIs _ _).after fun more => .ite ?_ (.pure _)
      exact h.some.after fun result => (composed_span _ _).after fun location => ih _
  exact .size_bind (fun rounds => hrounds rounds callee) fun hle =>
    sameWithin_calls (.refl arguments) h (Nat.le_refl _) hle callee

end Calls

theorem composed_expressionWithin (bound : Nat) : Composed 1 (expressionWithin bound) := by
  induction bound with
  | zero => exact .throw _
  | succ bound ih =>
    exact composed_primary.before fun first =>
      composed_followedBy (composed_commaList ih.some) first

/-- The levels of an expression do not matter, as long as there are as many as items. -/
theorem sameWithin_expressionWithin (hbound : count ≤ bound) (hbound' : count ≤ bound') :
    SameWithin count (expressionWithin bound) (expressionWithin bound') := by
  have hended (bound : Nat) (_ : Unit) : SameWithin 0 endOfFile (expressionWithin bound) := by
    cases bound with
    | zero => exact .refl _
    | succ =>
      intro cursor hcursor
      have hlook := comingUp_of_size_eq_zero (Nat.le_zero.mp hcursor)
      exact (bind_of_error (bind_of_error hlook)).symm
  -- a level carries nothing on to the next one
  refine sameWithin_rounds hended hended (fun _ ih _ => ?_) hbound hbound' ()
  refine .after composed_primary fun first => .size_bind fun size hsize => ?_
  have hcomposed (bound : Nat) := (composed_expressionWithin bound).some
  exact sameWithin_calls (sameWithin_commaList ((ih ()).mono (by omega)) (hcomposed _))
    (composed_commaList (hcomposed _)) (Nat.le_refl _) (Nat.le_refl _) first

theorem composed_expression : Composed 1 expression :=
  .size_bind composed_expressionWithin fun hle => sameWithin_expressionWithin (Nat.le_refl _) hle

/-- The arguments of a call. -/
def argumentList : Parse (List Expr × Token) :=
  commaList "(" ")" expression

theorem composed_argumentList : Composed 1 argumentList :=
  composed_commaList composed_expression.some

/-- **Expressions without bounds.** -/
theorem expression_eq : expression = (do followedBy argumentList (← primary)) := by
  refine size_bind_eq sameWithin_expressionWithin fun count => ?_
  refine .after composed_primary fun first => .size_bind fun size hsize => ?_
  have hinner : SameWithin size (expressionWithin count) expression := fun after hafter =>
    sameWithin_expressionWithin (by omega) (Nat.le_refl _) after (Nat.le_refl _)
  exact sameWithin_calls (sameWithin_commaList hinner composed_expression.some)
    composed_argumentList (Nat.le_refl _) (Nat.le_refl _) first

/-! ### Statements -/

/-- The statements up to a closing brace, without a bound. -/
def bodyFrom (statement : Parse Group) (before : List Stmt) : Parse (List Stmt) := do
  statementsToBrace statement (← size) before

section Blocks

variable {statement other : Parse Group} {count : Nat}

/-- The rounds of a block do not matter, as long as there are as many as items. -/
theorem sameWithin_statementsToBrace (h : SameWithin count statement other)
    (hcomposed : Composed 1 other) {rounds rounds' : Nat} (hrounds : count ≤ rounds)
    (hrounds' : count ≤ rounds') (before : List Stmt) :
    SameWithin count (statementsToBrace statement rounds before)
      (statementsToBrace other rounds' before) := by
  have hended (statement : Parse Group) (rounds : Nat) (before : List Stmt) :
      SameWithin 0 endOfFile (statementsToBrace statement rounds before) := by
    cases rounds with
    | zero => exact .refl _
    | succ => exact sameWithin_zero_endOfFile _
  refine sameWithin_rounds (hended statement) (hended other) (fun hfewer ih before => ?_) hrounds
    hrounds' before
  exact .after Composed.comingUp fun token =>
    .ite (.refl _) ((h.mono hfewer).bind hcomposed fun group => ih _)

theorem bodyFrom_eq (hcomposed : Composed 1 statement) (before : List Stmt) :
    bodyFrom statement before = (do
      if (← comingUp 1).isOperator "\x7d" then
        return before
      else
        let group ← statement
        bodyFrom statement (before ++ group.toList)) := by
  refine size_bind_eq
    (fun hle hle' => sameWithin_statementsToBrace (.refl statement) hcomposed hle hle' before)
    fun count => ?_
  refine .after Composed.comingUp fun token => .ite (.refl _) ?_
  refine .after hcomposed fun group after hafter => ?_
  exact sameWithin_statementsToBrace (.refl statement) hcomposed (by omega) (Nat.le_refl _) _ after
    (Nat.le_refl _)

theorem composed_bodyFrom (h : Composed 1 statement) (before : List Stmt) :
    Composed 0 (bodyFrom statement before) := by
  have hrounds (rounds : Nat) (before : List Stmt) :
      Composed 0 (statementsToBrace statement rounds before) := by
    induction rounds generalizing before with
    | zero => exact .throw _
    | succ rounds ih =>
      refine Composed.comingUp.after fun token => .ite (.pure _) ?_
      exact h.some.after fun group => ih _
  exact .size_bind (fun rounds => hrounds rounds before) fun hle =>
    sameWithin_statementsToBrace (.refl statement) h (Nat.le_refl _) hle before

theorem composed_block (h : Composed 1 statement) : Composed 1 (block statement) := by
  refine (composed_expect _ _).before fun _ => (composed_bodyFrom h []).after fun body => ?_
  exact (Composed.pop.before fun _ => .pure _).some

theorem sameWithin_block (h : SameWithin count statement other) (hcomposed : Composed 1 other) :
    SameWithin count (block statement) (block other) := by
  refine .after (composed_expect _ _) fun _ => ?_
  have hbody : SameWithin (count - 1) (bodyFrom statement []) (bodyFrom other []) :=
    .size_bind fun size hsize =>
      sameWithin_statementsToBrace (h.mono (by omega)) hcomposed (Nat.le_refl _) (Nat.le_refl _) []
  exact hbody.bind (composed_bodyFrom hcomposed []) fun body => .refl _

theorem composed_conditional (h : Composed 1 statement) : Composed 1 (conditional statement) := by
  refine (composed_expect _ _).before fun word => ?_
  refine composed_expression.some.after fun condition => ?_
  exact (composed_block h).some.after fun result => composed_spanned _ _ _

/-- What stands in a body is behind the word in front of the statement. -/
theorem sameWithin_conditional (h : SameWithin (count - 1) statement other)
    (hcomposed : Composed 1 other) :
    SameWithin count (conditional statement) (conditional other) := by
  refine .after (composed_expect _ _) fun word => .after composed_expression fun condition => ?_
  exact ((sameWithin_block h hcomposed).mono (Nat.sub_le _ _)).bind
    (composed_block hcomposed) fun result => .refl _

theorem composed_parameter : Composed 1 parameter :=
  composed_name.before fun _ => (composed_name.before fun _ => .pure _).some

/-- The type of the value of a function, if there is one. -/
def returnType : Parse (Option Name) := do
  if (← comingUp 1).is .name "returns" then do
    let _ ← pop
    pure (some (← name))
  else
    pure none

theorem composed_returnType : Composed 0 returnType := by
  refine Composed.comingUp.after fun token => .ite ?_ (.pure _)
  refine (Composed.pop.some).after fun _ => ?_
  exact (composed_name.before fun _ => .pure _).some

theorem function_eq (statement : Parse Group) : function statement = (do
      let word ← expectWord "function"
      let name ← name
      let (parameters, _) ← commaList "(" ")" parameter
      let returnType ← returnType
      let (body, close) ← block statement
      return .function name.text parameters returnType body
        (← span word.location close.location)) := by
  unfold function returnType
  refine bind_congr fun word => bind_congr fun name => bind_congr fun list => ?_
  dsimp only
  rw [bind_assoc]
  refine bind_congr fun token => ?_
  split
  · simp only [bind_assoc]
  · rfl

theorem composed_function (h : Composed 1 statement) : Composed 1 (function statement) := by
  rw [function_eq]
  refine (composed_expect _ _).before fun word => composed_name.some.after fun name => ?_
  have hlist : Composed 1 (commaList "(" ")" parameter) :=
    composed_commaList composed_parameter.some
  refine hlist.some.after fun list => composed_returnType.after fun type => ?_
  exact (composed_block h).some.after fun result => composed_spanned _ _ _

theorem sameWithin_function (h : SameWithin (count - 1) statement other)
    (hcomposed : Composed 1 other) :
    SameWithin count (function statement) (function other) := by
  rw [function_eq, function_eq]
  refine .after (composed_expect _ _) fun word => .after composed_name fun name => ?_
  have hlist : Composed 1 (commaList "(" ")" parameter) :=
    composed_commaList composed_parameter.some
  refine .after hlist fun list => .after composed_returnType fun type => ?_
  exact ((sameWithin_block h hcomposed).mono (by omega)).bind
    (composed_block hcomposed) fun result => .refl _

end Blocks

/-- An expression and a semicolon, and a place for both. -/
theorem composed_valued {first : Expr → Location} {make : Expr → Location → α} : Composed 2 (do
      let value ← expression
      let semicolon ← expectOperator ";"
      return make value (← span (first value) semicolon.location)) :=
  composed_expression.bind fun _ => (composed_expect _ _).before fun _ => composed_spanned _ _ _

theorem composed_assignment : Composed 1 assignment :=
  composed_name.before fun _ => (composed_expect _ _).some.after fun _ => composed_valued.some

theorem composed_declaration : Composed 1 declaration := by
  refine composed_name.before fun type => composed_name.some.after fun target => ?_
  refine Composed.comingUp.after fun token => .ite ?_ ?_
  · exact Composed.pop.some.after fun semicolon => composed_spanned _ _ _
  · refine (composed_expect _ _).some.after fun equals =>
      composed_expression.some.after fun value => ?_
    refine (composed_expect _ _).some.after fun semicolon =>
      (composed_span _ _).after fun declared => ?_
    exact composed_spanned _ _ _

theorem composed_result : Composed 1 result :=
  (composed_expect _ _).before fun _ => composed_valued.some

theorem composed_single {least : Nat} {action : Parse Stmt} (h : Composed least action) :
    Composed least (do return ({ first := ← action } : Group)) :=
  h.before fun _ => .pure _

theorem composed_plainStatement : Composed 1 plainStatement := by
  have hlone : Composed 2 (do return ({ first := ← expressionStatement } : Group)) :=
    composed_single composed_valued
  refine .second_bind (fun other => ?_) hlone
  cases other with
  | none => exact hlone.mono (Nat.le_succ _)
  | some =>
    exact .ite (composed_single composed_assignment)
      (.ite composed_declaration (hlone.mono (Nat.le_succ _)))

/-- What a statement is read as, given how to read the statements inside of it. -/
def statementForm (inner : Parse Group) : Parse Group := do
  let first ← comingUp 1
  if first.kind = .name then
    if first.value = "return" then
      return { first := ← result }
    else if first.value = "if" then
      return { first := ← conditional inner }
    else if first.value = "function" then
      return { first := ← function inner }
    else
      plainStatement
  else
    return { first := ← expressionStatement }

theorem composed_statementForm (h : Composed 1 inner) : Composed 1 (statementForm inner) := by
  refine Composed.comingUp.after fun first => ?_
  refine .ite (.ite (composed_single composed_result) ?_)
    (composed_single (composed_valued.mono (Nat.le_succ _)))
  refine .ite (composed_single (composed_conditional h)) ?_
  exact .ite (composed_single (composed_function h)) composed_plainStatement

/-- Inner statements stand behind a token that is not theirs. -/
theorem sameWithin_statementForm {other : Parse Group} (h : SameWithin (count - 1) inner other)
    (hcomposed : Composed 1 other) :
    SameWithin count (statementForm inner) (statementForm other) := by
  have hsingle {action action' : Parse Stmt} (h : SameWithin count action action')
      (hcomposed : Composed 1 action') :
      SameWithin count (do return ({ first := ← action } : Group))
        (do return { first := ← action' }) :=
    h.bind hcomposed fun _ => .refl _
  refine .after Composed.comingUp fun first => .ite (.ite (.refl _) ?_) (.refl _)
  refine .ite (hsingle (sameWithin_conditional h hcomposed) (composed_conditional hcomposed)) ?_
  exact .ite (hsingle (sameWithin_function h hcomposed) (composed_function hcomposed)) (.refl _)

theorem composed_statementWithin (bound : Nat) : Composed 1 (statementWithin bound) := by
  induction bound with
  | zero => exact .throw _
  | succ bound ih => exact composed_statementForm ih

/-- The levels of a statement do not matter, as long as there are as many as items. -/
theorem sameWithin_statementWithin (hbound : count ≤ bound) (hbound' : count ≤ bound') :
    SameWithin count (statementWithin bound) (statementWithin bound') := by
  have hended (bound : Nat) (_ : Unit) : SameWithin 0 endOfFile (statementWithin bound) := by
    cases bound with
    | zero => exact .refl _
    | succ => exact sameWithin_zero_endOfFile _
  refine sameWithin_rounds hended hended (fun _ ih _ => ?_) hbound hbound' ()
  exact sameWithin_statementForm (ih ()) (composed_statementWithin _)

theorem composed_statement : Composed 1 statement :=
  .size_bind composed_statementWithin fun hle => sameWithin_statementWithin (Nat.le_refl _) hle

/-- **Statements without bounds.** -/
theorem statement_eq : statement = statementForm statement := by
  refine size_bind_eq sameWithin_statementWithin fun count => ?_
  have hinner : SameWithin (count - 1) (statementWithin count) statement := fun after hafter =>
    sameWithin_statementWithin (by omega) (Nat.le_refl _) after (Nat.le_refl _)
  exact sameWithin_statementForm hinner composed_statement

end Parse

end FrontEnd
