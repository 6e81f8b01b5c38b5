import FrontEnd.Proofs.Tree.Verdict

/-!
# Errors are reported neither early nor late

Every action that reads a tree has a verdict on the tokens in front of it, for the trees that the
grammar derives. Along the actions that read expressions, lists and blocks, this ends with the
verdict on a statement (`Parse.verdict_statement`): no token is refused that some statement could
have at its place, and none is taken behind which no statement could go on.
-/

namespace FrontEnd

open Grammar Token List OnLine

namespace Parse

variable {α : Type} {faultless : Prop} {tokens left : List Token} {token second : Token}
  {first value : Expr} {taken : List Token}

/-! ### Ends of trees -/

theorem canEnd_expression : CanEnd [] Expression :=
  fun line => ⟨[nameOn line], _, nil.name, .mk (.name (isName_nameOn line)) .nil⟩

theorem canEnd_parameter : CanEnd [] IsParameter :=
  fun line => ⟨[nameOn line, nameOn line], _, nil.name.name,
    .mk (isName_nameOn line) (isName_nameOn line)⟩

/-! ### Single tokens -/

theorem verdict_primary (h : Trusted faultless tokens) :
    Verdict faultless tokens primary fun taken value =>
      ∃ token, taken = [token] ∧ Primary token value := by
  have hend : CanEnd [] fun taken value => ∃ token, taken = [token] ∧ Primary token value :=
    fun line => ⟨[nameOn line], _, nil.name, _, rfl, .name (isName_nameOn line)⟩
  refine .comingUp_bind hend ?_
  rintro token left rfl
  cases hkind : token.kind with
  | name =>
    refine .name_bind hend ?_
    rintro _ name rest heq hname
    cases heq
    exact .pure ⟨token, rfl, .name hname⟩
  | integer =>
    refine .pop_bind (.pure ⟨token.requoted, rfl, ?_⟩)
    rw [requoted_of_kind (by rw [hkind]; decide)]
    exact .integer hkind
  | string =>
    refine .pop_bind ?_
    cases hunquote : unquote? token.value with
    | some text =>
      refine .pure ⟨token.requoted, rfl, ?_⟩
      have hquoted : token.requoted.value.toList = '"' :: (text.toList ++ ['"']) := by
        simp [requoted, hkind, hunquote]
      have hprimary := Primary.string (show token.requoted.kind = .string from hkind) hquoted
      rwa [String.ofList_toList] at hprimary
    | none =>
      refine .faults .unquotedString (fun hfaultless => ?_) fun cursor _ => ⟨cursor, rfl⟩
      obtain ⟨inner, hinner⟩ := (h hfaultless).quoted token mem_cons_self hkind
      rw [unquote?_of_quoted hinner] at hunquote
      cases hunquote
  | operator => exact .refuse _ (by simp) hend fun behind cursor _ => ⟨cursor, rfl⟩

/-! ### Lists -/

section Lists

variable {element : Parse α} {Element : List Token → α → Prop} {bound : Nat}

theorem verdict_elementsFrom
    (helement : ∀ tokens, tokens.length ≤ bound → Trusted faultless tokens →
      Verdict faultless tokens element Element)
    (hcomposed : Composed 0 element) (hend : CanEnd [] Element) (before : List α)
    (hbound : tokens.length ≤ bound) (h : Trusted faultless tokens)
    (hfirst : ∀ first ∈ tokens.head?, first.isOperator "," = false) :
    Verdict faultless tokens (elementsFrom ")" element before) fun taken result =>
      ∃ found, result.1 = before ++ found ∧ Elements Element taken found result.2 := by
  -- each round takes a comma, so fewer tokens are left
  induction hlength : tokens.length using Nat.strong_induction_on generalizing tokens before with
  | _ length ih =>
    have hlast {tokens : List Token} {a : α} (ha : Element tokens a) (line : Nat) :
        Elements Element (tokens ++ [operatorOn line ")"]) [a] (operatorOn line ")") :=
      .last ha (isOperator_operatorOn line ")")
    have hclosed : CanEnd [] fun taken (result : List α × Token) =>
        ∃ found, result.1 = before ++ found ∧ Elements Element taken found result.2 := by
      intro line
      obtain ⟨more, a, hmore, ha⟩ := hend line
      exact ⟨more ++ [operatorOn line ")"], (before ++ [a], _), hmore.append (nil.operator ")"),
        [a], rfl, hlast ha line⟩
    rw [elementsFrom_eq hcomposed]
    refine .comingUp_bind hclosed ?_
    rintro first rest rfl
    dsimp only
    rw [hfirst first rfl, if_neg Bool.false_ne_true]
    have hbehind {taken : List Token} {a : α} (ha : Element taken a) :
        CanEnd taken fun taken (result : List α × Token) =>
          ∃ found, result.1 = before ++ found ∧ Elements Element taken found result.2 :=
      fun line => ⟨[operatorOn line ")"], (before ++ [a], _), nil.operator ")", [a], rfl,
        hlast ha line⟩
    refine (helement _ hbound h).bind ?_ fun taken a => hbehind
    rintro taken a left heq ha
    rw [heq] at h
    have hleft := h.of_append
    have hshorter : left.length ≤ length := by
      rw [← hlength, heq, length_append]
      omega
    have hend' := hbehind ha
    refine .comingUp_bind hend' ?_
    rintro token left rfl
    split
    · next hclose => exact .popIs_bind hclose (.pure ⟨[a], rfl, .last ha hclose⟩)
    have hcommaEnd {comma : Token} (hcomma : comma.isOperator "," = true) :
        CanEnd [comma] fun more (result : List α × Token) =>
          ∃ found, result.1 = before ++ found ∧
            Elements Element (taken.map requoted ++ more) found result.2 :=
      fun line => ⟨[operatorOn line ")"], (before ++ [a], _), nil.operator ")", [a], rfl,
        .lastComma ha hcomma (isOperator_operatorOn line ")")⟩
    by_cases hdouble : token.isOperator "," = true ∧
        ∃ next rest, left = next :: rest ∧ next.isOperator "," = true ∧
        token.location.line ≤ next.location.line
    · -- both commas are covered, and it is the second one that is refused
      obtain ⟨hcomma, next, rest, rfl, hnext, hline⟩ := hdouble
      have hblames :
          (Cause.doubleComma.located (token.location.span next.location)).Blames ([] ++ [token])
          next := .commas
      refine .refuses [token] next rest _ rfl hblames (fun behind => ?_) ?_
        (by simp [Error.Leading, Cause.located])
      · refine (steps_expectOperator hcomma).leads.fails (steps_comingUp.leads.fails ?_)
        dsimp only
        rw [if_pos hnext]
        exact (steps_span hline).leads.fails fun cursor _ => ⟨cursor, rfl⟩
      · rw [map_singleton, requoted_of_is hcomma (by decide)]
        exact hcommaEnd hcomma
    · refine .expectOperator_bind hend' ?_
      rintro comma rest heq hcomma
      cases heq
      refine .comingUp_bind (hcommaEnd hcomma) ?_
      rintro next rest rfl
      dsimp only
      split
      · next hnext =>
        have hline (hle) := hdouble ⟨hcomma, next, rest, rfl, hnext, hle⟩
        exact .faults .backwardSpan
          (fun hfaultless => hline (hleft.line_le mem_cons_self hfaultless)) (fails_span hline).bind
      next hnext =>
      split
      · next hclose => exact .popIs_bind hclose (.pure ⟨[a], rfl, .lastComma ha hcomma hclose⟩)
      · rw [length_cons] at hshorter
        have hrest : Trusted faultless (next :: rest) := hleft.of_cons
        have hfirst : ∀ first ∈ (next :: rest).head?, first.isOperator "," = false := by
          simpa using hnext
        refine (ih _ (by omega) (before ++ [a]) (by omega) hrest hfirst rfl).mono ?_
        rintro more ⟨_, close⟩ ⟨found, rfl, hfound⟩
        exact ⟨a :: found, append_assoc _ _ _, .more ha hcomma hfound⟩

theorem canEnd_commaList : CanEnd [] fun taken (result : List α × Token) =>
    Listed Element taken result.1 result.2 :=
  fun line => ⟨[operatorOn line "(", operatorOn line ")"], ([], _), (nil.operator ")").operator "(",
    .empty (isOperator_operatorOn line "(") (isOperator_operatorOn line ")")⟩

theorem canEnd_opening {opening : Token} (hopen : opening.isOperator "(" = true) :
    CanEnd [opening] fun taken (result : List α × Token) =>
      Listed Element taken result.1 result.2 :=
  fun line => ⟨[operatorOn line ")"], ([], _), nil.operator ")",
    .empty hopen (isOperator_operatorOn line ")")⟩

/-- A comma behind the opening parenthesis. -/
theorem fails_commaList_comma {opening comma : Token} (hcomposed : Composed 0 element)
    (hopen : opening.isOperator "(" = true) (hcomma : comma.isOperator "," = true) :
    Fails (opening :: comma :: left) (commaList "(" ")" element)
      (.error (Cause.leadingComma.located comma.location)) := by
  refine (steps_expectOperator hopen).leads.fails (steps_comingUp.leads.fails ?_)
  rw [isOperator_eq_false hcomma (show "," ≠ ")" by decide), if_neg Bool.false_ne_true]
  change Fails (comma :: left) (elementsFrom ")" element []) _
  rw [elementsFrom_eq hcomposed]
  refine steps_comingUp.leads.fails fun cursor _ => ⟨cursor, ?_⟩
  dsimp only
  rw [if_pos hcomma]
  rfl

theorem verdict_commaList
    (helement : ∀ tokens, tokens.length ≤ bound → Trusted faultless tokens →
      Verdict faultless tokens element Element)
    (hcomposed : Composed 0 element) (hend : CanEnd [] Element) (hbound : tokens.length ≤ bound + 1)
    (h : Trusted faultless tokens) :
    Verdict faultless tokens (commaList "(" ")" element) fun taken result =>
      Listed Element taken result.1 result.2 := by
  by_cases hleading : ∃ opening comma left, tokens = opening :: comma :: left ∧
      opening.isOperator "(" = true ∧ comma.isOperator "," = true
  · obtain ⟨opening, comma, left, rfl, hopen, hcomma⟩ := hleading
    refine .refuses [opening] comma left _ rfl (.token (by simp) (by simp))
      (fun behind => fails_commaList_comma hcomposed hopen hcomma) ?_ fun _ =>
      ⟨[], opening, rfl, hopen, hcomma⟩
    rw [map_singleton, requoted_of_is hopen (by decide)]
    exact canEnd_opening hopen
  refine .expectOperator_bind canEnd_commaList ?_
  rintro opening left rfl hopen
  rw [length_cons] at hbound
  refine .comingUp_bind (canEnd_opening hopen) ?_
  rintro close rest rfl
  split
  · next hclose => exact .popIs_bind hclose (.pure (.empty hopen hclose))
  · have hrest : Trusted faultless (close :: rest) := h.of_cons
    have hfirst (first : Token) (hhead : first ∈ (close :: rest).head?) :
        first.isOperator "," = false := by
      cases hhead
      exact Bool.eq_false_iff.mpr fun hcomma => hleading ⟨opening, close, rest, rfl, hopen, hcomma⟩
    refine (verdict_elementsFrom helement hcomposed hend [] (by omega) hrest hfirst).mono ?_
    rintro taken ⟨_, close⟩ ⟨found, rfl, hfound⟩
    exact .elements hopen hfound

end Lists

/-! ### Expressions -/

theorem verdict_followedBy {arguments : Parse (List Expr × Token)}
    {Argument : List Token → Expr → Prop} {bound : Nat}
    (harguments : ∀ tokens, tokens.length ≤ bound → Trusted faultless tokens →
      Verdict faultless tokens arguments fun taken result =>
        Listed Argument taken result.1 result.2)
    (hcomposed : Composed 1 arguments) {callee : Expr} (hbound : tokens.length ≤ bound)
    (h : Trusted faultless tokens)
    (hline : ∀ token ∈ tokens, faultless → callee.location.line ≤ token.location.line) :
    Verdict faultless tokens (followedBy arguments callee) fun taken value =>
      Calls Argument callee taken value := by
  -- a list of arguments takes its parentheses at least
  induction hlength : tokens.length using Nat.strong_induction_on generalizing tokens callee with
  | _ length ih =>
    rw [followedBy_eq hcomposed]
    cases tokens with
    | nil =>
      refine .step (b := false) (fun behind hbehind => ?_) (.pure .nil)
      obtain rfl : behind = [] := head?_eq_none_iff.mp hbehind
      exact steps_nextIs_nil
    | cons token left =>
      refine .step (b := token.is .operator "(") (fun behind hbehind => ?_) ?_
      · obtain ⟨more, rfl⟩ := head?_eq_some_iff.mp hbehind
        exact steps_nextIs
      split
      · refine (harguments _ hbound h).bind ?_ ?_
        · rintro taken ⟨found, close⟩ rest heq hlisted
          rw [heq] at h hline hlength hbound
          obtain ⟨token, htoken, rfl⟩ := mem_map.mp hlisted.close_mem
          refine .span_bind (hline token (mem_append_left _ htoken)) ?_
          have htaken := length_pos_of_mem htoken
          rw [length_append] at hlength hbound
          refine (ih _ (by omega) (by omega) h.of_append ?_ rfl).mono fun more value hcalls =>
            .cons hlisted hcalls
          intro token htoken
          rw [Expr.location, Location.span_line]
          exact hline token (mem_append_right _ htoken)
        · rintro taken ⟨found, close⟩ hlisted line
          exact ⟨[], _, .nil, .cons hlisted .nil⟩
      · exact .pure .nil

/-- The rest of an expression behind its first token. -/
theorem verdict_calls (hprimary : Primary token.requoted first)
    (hinner : ∀ tokens, tokens.length ≤ left.length → Trusted faultless tokens →
      Verdict faultless tokens expression Expression) (h : Trusted faultless (token :: left)) :
    Verdict faultless left (followedBy argumentList first) fun more value =>
      Expression (token.requoted :: more) value := by
  have harguments (tokens : List Token) (hbound : tokens.length ≤ left.length)
      (h : Trusted faultless tokens) :
      Verdict faultless tokens argumentList fun taken result =>
        Listed Expression taken result.1 result.2 :=
    verdict_commaList hinner composed_expression.some canEnd_expression (Nat.le_succ_of_le hbound) h
  refine (verdict_followedBy harguments composed_argumentList (Nat.le_refl _) h.of_cons ?_).mono
    fun more value hcalls => .mk hprimary hcalls
  intro other hother
  rw [hprimary.location_eq]
  exact h.line_le hother

theorem verdict_expression (h : Trusted faultless tokens) :
    Verdict faultless tokens expression Expression := by
  induction hlength : tokens.length using Nat.strong_induction_on generalizing tokens with
  | _ length ih =>
    rw [expression_eq]
    refine (verdict_primary h).bind ?_ ?_
    · rintro _ first left rfl ⟨_, htaken, hprimary⟩
      obtain ⟨token, rfl, rfl⟩ := map_eq_singleton_iff.mp htaken
      rw [length_append, length_singleton] at hlength
      exact verdict_calls hprimary (fun tokens hbound h => ih tokens.length (by omega) h rfl) h
    · rintro _ first ⟨token, rfl, hprimary⟩ line
      exact ⟨[], _, .nil, .mk hprimary .nil⟩

/-! ### Statements without blocks -/

theorem canEnd_statement : CanEnd [] fun taken stmt => Statement taken [stmt] :=
  fun line => ⟨[nameOn line, operatorOn line ";"], _, (nil.operator ";").name,
    .expression (.mk (.name (isName_nameOn line)) .nil) (isOperator_operatorOn line ";")⟩

/-- The semicolon behind an expression. -/
def closeExpression (value : Expr) : Parse Stmt := do
  let semicolon ← expectOperator ";"
  return .expression value (← span value.location semicolon.location)

theorem canEnd_closeExpression (hvalue : Expression taken value) :
    CanEnd taken fun taken stmt => Statement taken [stmt] :=
  fun line => ⟨[operatorOn line ";"], _, nil.operator ";",
    .expression hvalue (isOperator_operatorOn line ";")⟩

theorem verdict_closeExpression (hvalue : Expression (taken.map requoted) value)
    (h : Trusted faultless (taken ++ left)) :
    Verdict faultless left (closeExpression value) fun more stmt =>
      Statement (taken.map requoted ++ more) [stmt] := by
  refine .expectOperator_bind (canEnd_closeExpression hvalue) ?_
  rintro semicolon rest rfl hsemicolon
  refine .span_bind ?_ (.pure (.expression hvalue hsemicolon))
  -- an expression stands on the line of its first token
  obtain ⟨_, _, heq, -, hline⟩ := hvalue.start
  obtain ⟨first, more, rfl, rfl, -⟩ := map_eq_cons_iff.mp heq
  rw [hline]
  exact h.line_le (mem_append_right _ mem_cons_self)

theorem verdict_expressionStatement (h : Trusted faultless tokens) :
    Verdict faultless tokens expressionStatement fun taken stmt => Statement taken [stmt] := by
  refine (verdict_expression h).bind ?_ fun taken value => canEnd_closeExpression
  rintro taken value left rfl hvalue
  exact verdict_closeExpression hvalue h

/-- What stands behind the target of an assignment. -/
def closeAssignment (target : Name) : Parse Stmt := do
  let _ ← expectOperator "="
  let value ← expression
  let semicolon ← expectOperator ";"
  return .assignment target value (← span target.location semicolon.location)

theorem verdict_closeAssignment {name : Name} (hname : IsName token name)
    (h : Trusted faultless (token :: left)) :
    Verdict faultless left (closeAssignment name) fun more stmt =>
      Statement (token :: more) [stmt] := by
  have hend {equals : Token} {taken : List Token} {value : Expr}
      (hequals : equals.isOperator "=" = true) (hvalue : Expression taken value) :
      CanEnd taken fun more stmt => Statement (token :: equals :: more) [stmt] := fun line =>
    ⟨[operatorOn line ";"], _, nil.operator ";",
      .assignment hname hequals hvalue (isOperator_operatorOn line ";")⟩
  have hstart : CanEnd [] fun more stmt => Statement (token :: more) [stmt] := by
    intro line
    obtain ⟨more, value, hmore, hvalue⟩ := canEnd_expression line
    obtain ⟨others, stmt, hothers, hstmt⟩ := hend (isOperator_operatorOn line "=") hvalue line
    exact ⟨_, stmt, (hmore.append hothers).operator "=", hstmt⟩
  refine .expectOperator_bind hstart ?_
  rintro equals rest rfl hequals
  refine (verdict_expression h.of_cons.of_cons).bind ?_ fun taken value => hend hequals
  rintro taken value rest rfl hvalue
  refine .expectOperator_bind (hend hequals hvalue) ?_
  rintro semicolon rest rfl hsemicolon
  have hline : faultless → token.location.line ≤ semicolon.location.line := h.line_le (by simp)
  have hlocation := congrArg Name.location hname.2.2
  rw [hlocation]
  exact .span_bind hline (.pure (.assignment hname hequals hvalue hsemicolon))

/-- What stands behind the type of a declaration. -/
def closeDeclaration (type : Name) : Parse Group := do
  let target ← name
  if (← comingUp 1).isOperator ";" then
    let semicolon ← pop
    return { first := .declaration type target.text (← span type.location semicolon.location) }
  let _ ← expectOperator "="
  let value ← expression
  let semicolon ← expectOperator ";"
  let declared := .declaration type target.text (← span type.location target.location)
  let assigned := .assignment target value (← span target.location semicolon.location)
  return { first := declared, others := [assigned] }

theorem verdict_closeDeclaration {first : Token} {type : Name} (htype : IsName first type)
    (h : Trusted faultless (first :: left)) :
    Verdict faultless left (closeDeclaration type) fun more group =>
      Statement (first :: more) group.toList := by
  have hshort {second : Token} {name : Name} (hname : IsName second name) :
      CanEnd [] fun more (group : Group) => Statement (first :: second :: more) group.toList :=
        fun line =>
    ⟨[operatorOn line ";"], { first := _ }, nil.operator ";",
      .declaration htype hname (isOperator_operatorOn line ";")⟩
  have hstart : CanEnd [] fun more (group : Group) => Statement (first :: more) group.toList := by
    intro line
    obtain ⟨more, group, hmore, hgroup⟩ := hshort (isName_nameOn line) line
    exact ⟨_, group, hmore.name, hgroup⟩
  refine .name_bind hstart ?_
  rintro second name rest rfl hname
  have htypeLocation := congrArg Name.location htype.2.2
  have hnameLocation := congrArg Name.location hname.2.2
  rw [htypeLocation, hnameLocation]
  refine .comingUp_bind (hshort hname) ?_
  rintro semicolon rest rfl
  split
  · next hsemicolon =>
    have hline : faultless → first.location.line ≤ semicolon.location.line := h.line_le (by simp)
    exact .popIs_bind hsemicolon (.span_bind hline (.pure (.declaration htype hname hsemicolon)))
  · have hend {equals : Token} {taken : List Token} {value : Expr}
        (hequals : equals.isOperator "=" = true) (hvalue : Expression taken value) :
        CanEnd taken fun more (group : Group) =>
          Statement (first :: second :: equals :: more) group.toList := fun line =>
      ⟨[operatorOn line ";"], { first := _, others := [_] }, nil.operator ";",
        .initialised htype hname hequals hvalue (isOperator_operatorOn line ";")⟩
    refine .expectOperator_bind (hshort hname) ?_
    rintro equals rest heq hequals
    cases heq
    refine (verdict_expression h.of_cons.of_cons.of_cons).bind ?_ fun taken value => hend hequals
    rintro taken value rest rfl hvalue
    refine .expectOperator_bind (hend hequals hvalue) ?_
    rintro semicolon rest rfl hsemicolon
    have hdeclared : faultless → first.location.line ≤ second.location.line := h.line_le (by simp)
    have hassigned : faultless → second.location.line ≤ semicolon.location.line :=
      h.of_cons.line_le (by simp)
    refine .span_bind hdeclared (.span_bind hassigned ?_)
    exact .pure (.initialised htype hname hequals hvalue hsemicolon)

theorem verdict_result (h : Trusted faultless tokens) :
    Verdict faultless tokens result fun taken stmt => Statement taken [stmt] := by
  refine .expectWord_bind canEnd_statement ?_
  rintro word left rfl hword
  have hend {taken : List Token} {value : Expr} (hvalue : Expression taken value) :
      CanEnd taken fun more stmt => Statement (word :: more) [stmt] := fun line =>
    ⟨[operatorOn line ";"], _, nil.operator ";",
      .result hword hvalue (isOperator_operatorOn line ";")⟩
  refine (verdict_expression h.of_cons).bind ?_ fun taken value => hend
  rintro taken value left rfl hvalue
  refine .expectOperator_bind (hend hvalue) ?_
  rintro semicolon left rfl hsemicolon
  have hline : faultless → word.location.line ≤ semicolon.location.line := h.line_le (by simp)
  exact .span_bind hline (.pure (.result hword hvalue hsemicolon))

/-- A statement in a group of its own. -/
def Group.single (stmt : Stmt) : Parse Group :=
  return { first := stmt }

theorem Verdict.single (front : List Token) {action : Parse Stmt}
    (h : Verdict faultless tokens action fun taken stmt => Statement (front ++ taken) [stmt]) :
    Verdict faultless tokens (action >>= Group.single) fun taken group =>
      Statement (front ++ taken) group.toList := by
  refine h.bind ?_ fun taken stmt hstmt line => ⟨[], { first := stmt }, .nil, by rwa [append_nil]⟩
  rintro taken stmt left rfl hstmt
  exact .pure (by rwa [append_nil])

theorem canEnd_group : CanEnd [] fun taken (group : Group) => Statement taken group.toList := by
  intro line
  obtain ⟨more, stmt, hmore, hstmt⟩ := canEnd_statement line
  exact ⟨more, { first := stmt }, hmore, hstmt⟩

/-- Which form a statement that starts with a name has is told by the token behind the name. -/
def plainForm (second : Option Token) : Parse Group :=
  match second with
  | some second =>
    if second.isOperator "=" then assignment >>= Group.single
    else if second.kind = .name then declaration
    else expressionStatement >>= Group.single
  | none => expressionStatement >>= Group.single

theorem plainForm_equals (h : second.isOperator "=" = true) : plainForm (some second) =
      Parse.name >>= fun target => closeAssignment target >>= Group.single := by
  have hassign : assignment = Parse.name >>= closeAssignment := rfl
  simp only [plainForm, h, if_true, hassign, bind_assoc]

theorem plainForm_name (h : second.kind = .name) :
    plainForm (some second) = Parse.name >>= closeDeclaration := by
  have hother : second.isOperator "=" = false :=
    isOperator_eq_false_of_kind (by rw [h]; decide) "="
  simp only [plainForm, hother, h, Bool.false_eq_true, if_false, if_true]
  rfl

theorem plainForm_other (hequals : second.isOperator "=" = false) (hkind : second.kind ≠ .name) :
    plainForm (some second) = expressionStatement >>= Group.single := by
  simp only [plainForm, hequals, hkind, Bool.false_eq_true, if_false]

theorem plainStatement_eq :
    plainStatement = unlessEnded none (some <$> comingUp 2) >>= plainForm := by
  unfold plainStatement plainForm
  refine bind_congr fun second => ?_
  cases second <;> rfl

/-- The form is chosen, and the name is taken. -/
theorem leads_plainStatement {behind : List Token} {rest : Parse Group}
    (h : Leads (token :: behind) (plainForm behind.head?) rest left) :
    Leads (token :: behind) plainStatement rest left := by
  rw [plainStatement_eq]
  exact steps_second.leads.trans h

theorem leads_expressionStatement (h : Primary token first) :
    Leads (token :: left) (expressionStatement >>= Group.single)
      (followedBy argumentList first >>= closeExpression >>= Group.single) left := by
  have hform : expressionStatement = primary >>= fun first =>
    followedBy argumentList first >>= closeExpression := by
    change expression >>= closeExpression = _
    rw [expression_eq, bind_assoc]
  rw [hform, bind_assoc]
  exact (steps_primary h).leads

/-- No form of a statement starts with a reserved word that is no word of a statement. -/
theorem fails_plainForm (h : token.isReserved = true) (second : Option Token) :
    Fails (token :: left) (plainForm second)
      (.error ((Cause.reservedWord token.value).located token.location)) := by
  have hname : Fails (token :: left) Parse.name
      (.error ((Cause.reservedWord token.value).located token.location)) :=
    fails_name h
  have hexpression : Fails (token :: left) (expressionStatement >>= Group.single)
      (.error ((Cause.reservedWord token.value).located token.location)) := by
    have hkind : token.kind = .name := by
      simp only [isReserved, Bool.and_eq_true, beq_iff_eq] at h
      exact h.1
    have hprimary : Fails (token :: left) primary
        (.error ((Cause.reservedWord token.value).located token.location)) := by
      refine steps_comingUp.leads.fails ?_
      rw [hkind]
      exact hname.bind
    unfold expressionStatement
    rw [expression_eq]
    exact hprimary.bind.bind.bind
  unfold plainForm
  split
  · split
    · exact hname.bind.bind
    · split
      · exact hname.bind
      · exact hexpression
  · exact hexpression

theorem verdict_plainStatement (hkind : token.kind = .name)
    (h : Trusted faultless (token :: left)) :
    Verdict faultless (token :: left) plainStatement fun taken group =>
      Statement taken group.toList := by
  by_cases hreserved : token.isReserved = true
  · refine .refuse (.reservedWord token.value) (by simp) canEnd_group fun behind => ?_
    rw [plainStatement_eq]
    exact steps_second.leads.fails (fails_plainForm hreserved _)
  have hname : IsName token ⟨token.value, token.location⟩ := by
    refine ⟨hkind, ?_, rfl⟩
    simpa [isReserved, hkind] using hreserved
  have hsame : token.requoted = token := requoted_of_kind (by rw [hkind]; decide)
  -- the token behind the name is one of those that are looked at, whatever comes after it
  have hlead {rest : Parse Group}
      (hform : ∀ behind, Leads (token :: behind) (plainForm left.head?) rest behind)
      (hrest : Verdict faultless left rest fun more group =>
        Statement (token :: more) group.toList) :
      Verdict faultless (token :: left) plainStatement fun taken group =>
        Statement taken group.toList := by
    refine .lead [token] (fun behind hbehind => leads_plainStatement (hbehind ▸ hform behind)) ?_
    rw [map_singleton, hsame]
    exact hrest
  have hexpression :
      Verdict faultless left (followedBy argumentList (.name ⟨token.value, token.location⟩) >>=
        closeExpression >>= Group.single) fun more group =>
        Statement (token :: more) group.toList := by
    have hcalls :=
      verdict_calls (by rw [hsame]; exact .name hname) (fun tokens _ => verdict_expression) h
    rw [hsame] at hcalls
    refine Verdict.single [token] (hcalls.bind ?_ fun taken value hvalue =>
      canEnd_closeExpression hvalue)
    rintro taken value rest rfl hvalue
    have hmap : (token :: taken).map requoted = token :: taken.map requoted := by
      rw [map_cons, hsame]
    rw [← hmap] at hvalue
    have hclose := verdict_closeExpression hvalue h
    rwa [hmap] at hclose
  cases left with
  | nil => exact hlead (fun behind => leads_expressionStatement (.name hname)) hexpression
  | cons second =>
    by_cases hequals : second.isOperator "=" = true
    · refine hlead (fun behind => ?_) (Verdict.single [token] (verdict_closeAssignment hname h))
      rw [head?_cons, plainForm_equals hequals]
      exact (steps_name hname).leads
    · by_cases hsecond : second.kind = .name
      · refine hlead (fun behind => ?_) (verdict_closeDeclaration hname h)
        rw [head?_cons, plainForm_name hsecond]
        exact (steps_name hname).leads
      · refine hlead (fun behind => ?_) hexpression
        rw [head?_cons, plainForm_other (by simpa using hequals) hsecond]
        exact leads_expressionStatement (.name hname)

/-! ### Statements with blocks -/

theorem verdict_parameter (tokens : List Token) :
    Verdict faultless tokens parameter IsParameter := by
  refine .name_bind canEnd_parameter ?_
  rintro first type left rfl htype
  have hend : CanEnd [] fun more parameter => IsParameter (first :: more) parameter := fun line =>
    ⟨[nameOn line], _, nil.name, .mk htype (isName_nameOn line)⟩
  refine .name_bind hend ?_
  rintro second name left rfl hname
  exact .pure (.mk htype hname)

theorem verdict_parameters (h : Trusted faultless tokens) :
    Verdict faultless tokens (commaList "(" ")" parameter) fun taken result =>
      Listed IsParameter taken result.1 result.2 :=
  verdict_commaList (fun tokens _ _ => verdict_parameter tokens)
    composed_parameter.some canEnd_parameter (Nat.le_succ _) h

section Blocks

variable {statement : Parse Group} {bound : Nat}
  (hstatement : ∀ tokens, tokens.length ≤ bound → Trusted faultless tokens →
    Verdict faultless tokens statement fun taken group => Statement taken group.toList)
  (hcomposed : Composed 1 statement)

/-- Tokens of a body that can be closed at once. -/
theorem canEnd_body {front : List Token} {before stmts : List Stmt}
    (hstmts : Sequence Statement front stmts) :
    CanEnd front fun taken (result : List Stmt × Token) =>
      ∃ tokens stmts, taken = tokens ++ [result.2] ∧ result.1 = before ++ stmts ∧
        Sequence Statement tokens stmts ∧ result.2.isOperator "\x7d" = true :=
  fun line => ⟨[operatorOn line "\x7d"], (before ++ stmts, operatorOn line "\x7d"),
    nil.operator _, front, stmts, rfl, rfl, hstmts, isOperator_operatorOn line _⟩

theorem canEnd_block : CanEnd [] fun taken (result : List Stmt × Token) =>
    Block Statement taken result.1 result.2 :=
  fun line => ⟨[operatorOn line "\x7b", operatorOn line "\x7d"], ([], _),
    (nil.operator _).operator _,
    .mk (isOperator_operatorOn line _) .nil (isOperator_operatorOn line _)⟩

include hstatement hcomposed

/-- The statements up to a closing brace, and the brace. -/
theorem verdict_body (before : List Stmt) (hbound : tokens.length ≤ bound)
    (h : Trusted faultless tokens) :
    Verdict faultless tokens (do return (← bodyFrom statement before, ← pop)) fun taken result =>
      ∃ tokens stmts, taken = tokens ++ [result.2] ∧ result.1 = before ++ stmts ∧
        Sequence Statement tokens stmts ∧ result.2.isOperator "\x7d" = true := by
  -- each statement takes a token at least
  induction hlength : tokens.length using Nat.strong_induction_on generalizing tokens before with
  | _ length ih =>
    rw [bodyFrom_eq hcomposed, bind_assoc]
    refine .comingUp_bind (canEnd_body .nil) ?_
    rintro close left rfl
    split
    · next hclose =>
      rw [pure_bind]
      exact .popIs_bind hclose (.pure ⟨[], [], rfl, (append_nil _).symm, .nil, hclose⟩)
    · rw [bind_assoc]
      refine (hstatement _ hbound h).bind ?_ ?_
      · rintro taken group rest heq hgroup
        obtain ⟨_, _, hstart, -⟩ := hgroup.start
        obtain ⟨first, inner, rfl, -⟩ := map_eq_cons_iff.mp hstart
        rw [heq] at h hlength hbound
        rw [length_append, length_cons] at hlength hbound
        refine (ih rest.length (by omega) (before ++ group.toList) (by omega)
          h.of_append rfl).mono ?_
        rintro more ⟨_, close⟩ ⟨tokens, stmts, rfl, rfl, hstmts, hclose⟩
        exact ⟨_ ++ tokens, group.toList ++ stmts, (append_assoc _ _ _).symm,
          append_assoc _ _ _, .cons hgroup hstmts, hclose⟩
      · intro taken group hgroup
        have hstmts : Sequence Statement (taken ++ []) (group.toList ++ []) := .cons hgroup .nil
        rw [append_nil] at hstmts
        exact canEnd_body hstmts

theorem verdict_block (hbound : tokens.length ≤ bound) (h : Trusted faultless tokens) :
    Verdict faultless tokens (block statement) fun taken result =>
      Block Statement taken result.1 result.2 := by
  refine .expectOperator_bind canEnd_block ?_
  rintro opening left rfl hopen
  rw [length_cons] at hbound
  refine (verdict_body hstatement hcomposed [] (by omega) h.of_cons).mono ?_
  rintro _ ⟨_, close⟩ ⟨tokens, stmts, rfl, rfl, hstmts, hclose⟩
  exact .mk hopen hstmts hclose

theorem verdict_conditional (hbound : tokens.length ≤ bound + 1) (h : Trusted faultless tokens) :
    Verdict faultless tokens (conditional statement) fun taken stmt => Statement taken [stmt] := by
  refine .expectWord_bind canEnd_statement ?_
  rintro word left rfl hword
  have hend {taken rest : List Token} {condition : Expr} {body : List Stmt × Token}
      (hcondition : Expression taken condition) (hblock : Block Statement rest body.1 body.2) :
      CanEnd rest fun more stmt => Statement (word :: (taken ++ more)) [stmt] := fun line =>
    ⟨[], _, .nil, by simpa using Statement.conditional hword hcondition hblock⟩
  have hstart {taken : List Token} {condition : Expr} (hcondition : Expression taken condition) :
      CanEnd taken fun more stmt => Statement (word :: more) [stmt] := by
    intro line
    obtain ⟨more, body, hmore, hblock⟩ := canEnd_block line
    exact ⟨more, _, hmore, .conditional hword hcondition hblock⟩
  refine (verdict_expression h.of_cons).bind ?_ fun taken condition => hstart
  rintro taken condition left rfl hcondition
  rw [length_cons, length_append] at hbound
  refine (verdict_block hstatement hcomposed (by omega)
    h.of_cons.of_append).bind ?_ fun rest body hblock =>
    hend hcondition hblock
  rintro rest ⟨body, close⟩ left rfl hblock
  obtain ⟨last, hlast, rfl⟩ := mem_map.mp hblock.close_mem
  have hline : faultless → word.location.line ≤ last.location.line := h.line_le (by simp [hlast])
  refine .span_bind hline (.pure ?_)
  rw [append_nil]
  exact .conditional hword hcondition hblock

omit hstatement hcomposed in
theorem verdict_returnType (tokens : List Token) :
    Verdict faultless tokens returnType ReturnType := by
  refine .comingUp_bind (fun line => ⟨[], none, .nil, .nothing⟩) ?_
  rintro word left rfl
  split
  · next hword =>
    refine .popIs_bind hword (.name_bind ?_ ?_)
    · exact fun line => ⟨[nameOn line], _, nil.name, .type hword (isName_nameOn line)⟩
    · rintro token name left rfl hname
      exact .pure (.type hword hname)
  · exact .pure .nothing

theorem verdict_function (hbound : tokens.length ≤ bound + 1) (h : Trusted faultless tokens) :
    Verdict faultless tokens (function statement) fun taken stmt => Statement taken [stmt] := by
  rw [function_eq]
  refine .expectWord_bind canEnd_statement ?_
  rintro word left rfl hword
  -- a function can end behind each of its parts, with the shortest form of every part that is left
  have hbody {token : Token} {name : Name} {list type : List Token}
      {parameters : List Parameter × Token} {returnType : Option Name} (hname : IsName token name)
      (hlisted : Listed IsParameter list parameters.1 parameters.2)
      (htype : ReturnType type returnType) :
      CanEnd type fun more stmt => Statement (word :: token :: (list ++ more)) [stmt] := by
    intro line
    obtain ⟨more, body, hmore, hblock⟩ := canEnd_block line
    exact ⟨more, _, hmore, .function hword hname hlisted htype hblock⟩
  have hlist {token : Token} {name : Name} {list : List Token} {parameters : List Parameter × Token}
      (hname : IsName token name) (hlisted : Listed IsParameter list parameters.1 parameters.2) :
      CanEnd list fun more stmt => Statement (word :: token :: more) [stmt] :=
    hbody hname hlisted .nothing
  have hparameters {token : Token} {name : Name} (hname : IsName token name) :
      CanEnd [] fun more stmt => Statement (word :: token :: more) [stmt] := by
    intro line
    have hempty : CanEnd [] fun taken (result : List Parameter × Token) =>
        Listed IsParameter taken result.1 result.2 := canEnd_commaList
    obtain ⟨more, parameters, hmore, hlisted⟩ := hempty line
    obtain ⟨others, stmt, hothers, hstmt⟩ := hlist hname hlisted line
    exact ⟨more ++ others, stmt, hmore.append hothers, hstmt⟩
  have hstart : CanEnd [] fun more stmt => Statement (word :: more) [stmt] := by
    intro line
    obtain ⟨more, stmt, hmore, hstmt⟩ := hparameters (isName_nameOn line) line
    exact ⟨_, stmt, hmore.name, hstmt⟩
  refine .name_bind hstart ?_
  rintro token name left rfl hname
  have hleft : Trusted faultless left := h.of_cons.of_cons
  refine (verdict_parameters hleft).bind ?_ fun list parameters => hlist hname
  rintro list ⟨parameters, last⟩ left rfl hlisted
  refine (verdict_returnType left).bind ?_ fun type returnType => hbody hname hlisted
  rintro type returnType left rfl htype
  simp only [length_cons, length_append] at hbound
  refine (verdict_block hstatement hcomposed (by omega) hleft.of_append.of_append).bind ?_ ?_
  · rintro rest ⟨body, close⟩ left rfl hblock
    obtain ⟨token, htoken, rfl⟩ := mem_map.mp hblock.close_mem
    have hline : faultless → word.location.line ≤ token.location.line :=
      h.line_le (by simp [htoken])
    refine .span_bind hline (.pure ?_)
    rw [append_nil]
    exact .function hword hname hlisted htype hblock
  · rintro rest ⟨body, close⟩ hblock line
    have hwhole := Statement.function hword hname hlisted htype hblock
    rw [← append_nil rest] at hwhole
    exact ⟨[], _, .nil, hwhole⟩

end Blocks

theorem verdict_statement (h : Trusted faultless tokens) :
    Verdict faultless tokens statement fun taken group => Statement taken group.toList := by
  -- statements inside of a statement are behind its first token
  induction hlength : tokens.length using Nat.strong_induction_on generalizing tokens with
  | _ length ih =>
    rw [statement_eq]
    refine .comingUp_bind canEnd_group ?_
    rintro first left rfl
    rw [length_cons] at hlength
    have hinner (tokens : List Token) (hbound : tokens.length ≤ left.length)
        (h : Trusted faultless tokens) :=
      ih tokens.length (by omega) h rfl
    have hbound : (first :: left).length ≤ left.length + 1 := Nat.le_refl _
    split
    · next hkind =>
      split
      · exact (verdict_result h).single []
      · split
        · exact (verdict_conditional hinner composed_statement hbound h).single []
        · split
          · exact (verdict_function hinner composed_statement hbound h).single []
          · exact verdict_plainStatement hkind h
    · exact (verdict_expressionStatement h).single []

end Parse

end FrontEnd
