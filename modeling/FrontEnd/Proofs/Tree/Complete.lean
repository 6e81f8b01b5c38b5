import FrontEnd.Proofs.Token.Stream
import FrontEnd.Proofs.Tree.Bounds
import FrontEnd.Proofs.Tree.Grammar

/-!
# The whole grammar is read

Whatever the grammar derives is read, with the tree that it is derived with. At most two tokens
decide what comes next, and they decide right: names and words with a meaning of their own differ,
and an expression is never followed by a token that could go on with it (`Stops`).

Reading is done as it would be without bounds (`FrontEnd.Parse.expression_eq`,
`FrontEnd.Parse.statement_eq`), so the proofs follow the grammar.
-/

namespace FrontEnd

open List Token

variable {token : Token} {value : String}

/-- A token that is one operator is not another one. -/
theorem Token.isOperator_eq_false {other : String} (h : token.isOperator value = true)
    (hne : value ≠ other) :
    token.isOperator other = false := by
  obtain ⟨hkind, rfl⟩ := is_eq_true_iff.mp h
  simpa [isOperator, is] using fun _ => hne

theorem Token.isOperator_eq_false_of_kind (h : token.kind ≠ .operator) (value : String) :
    token.isOperator value = false := by
  simp [isOperator, is, h]

theorem Token.is_eq_false_of_kind {kind : Kind} (h : token.kind ≠ kind) :
    token.is kind value = false := by
  simp [is, h]

theorem Token.kind_of_isOperator (h : token.isOperator value = true) : token.kind = .operator :=
  (is_eq_true_iff.mp h).1

namespace Parse

open Grammar

variable {α : Type} {tokens left : List Token} {token : Token} {name type : Name} {value : Expr}
  {semicolon equals first second : Token} {rest : List Token}

/-! ### Tokens of a text -/

/-- Tokens as a lexer yields them. -/
abbrev LexedTokens (tokens : List Token) : Prop :=
  Lexed (tokens.map .ok)

namespace LexedTokens

theorem of_append {taken : List Token} (h : LexedTokens (taken ++ left)) : LexedTokens left := by
  rw [LexedTokens, map_append] at h
  exact Lexed.of_append h

theorem of_cons (h : LexedTokens (token :: left)) : LexedTokens left :=
  Lexed.of_cons h

theorem line_le (h : LexedTokens (token :: left)) {other : Token} (hother : other ∈ left) :
    token.location.line ≤ other.location.line :=
  Lexed.line_le h (mem_map_of_mem hother)

/-- No token behind an expression is on a line before that of the expression. -/
theorem expression_line_le {value : Expr} (hvalue : Expression tokens value)
    (h : LexedTokens (tokens ++ left)) (htoken : token ∈ left) :
    value.location.line ≤ token.location.line := by
  obtain ⟨first, rest, rfl, -, hline⟩ := hvalue.start
  rw [hline]
  exact h.line_le (mem_append_right _ htoken)

end LexedTokens

/-- No call of an expression that stands in front goes on. -/
inductive Stops : List Token → Prop
  | nil : Stops []
  | cons {token : Token} {left : List Token} (h : token.isOperator "(" = false) :
      Stops (token :: left)

/-! ### Names and single tokens -/

/-- The text between the quotes of a string. -/
theorem unquote?_of_quoted {value : String} {inner : List Char}
    (h : value.toList = '"' :: (inner ++ ['"'])) : unquote? value = some (String.ofList inner) := by
  unfold unquote?
  rw [h]
  cases inner with
  | nil => rfl
  | cons first more =>
    have hlast : (first :: more ++ ['"']).getLast (by simp) = '"' := getLast_concat
    have hinit : (first :: more ++ ['"']).dropLast = first :: more := dropLast_concat
    simp only [cons_append] at hlast hinit ⊢
    rw [hlast, hinit, if_pos (by decide)]

theorem steps_name (h : IsName token name) : Steps (token :: left) Parse.name name left := by
  obtain ⟨hkind, hreserved, rfl⟩ := h
  have hfalse : token.isReserved = false := by
    simpa [isReserved, hkind] using hreserved
  refine (steps_expect hkind (by simp)).bind ?_
  dsimp only
  rw [hfalse, if_neg Bool.false_ne_true]
  exact .pure _

/-- A reserved word is refused when it has been taken. -/
theorem fails_name (h : token.isReserved = true) :
    Fails (token :: left) Parse.name
      (.error ((Cause.reservedWord token.value).located token.location)) := by
  have hkind : token.kind = .name := by
    simp only [isReserved, Bool.and_eq_true, beq_iff_eq] at h
    exact h.1
  refine (steps_expect hkind (by simp)).leads.fails fun cursor _ => ⟨cursor, ?_⟩
  dsimp only
  rw [if_pos h]
  rfl

theorem steps_primary (h : Primary token value) : Steps (token :: left) primary value left := by
  refine steps_comingUp.bind ?_
  cases h with
  | name isName =>
    rw [isName.1]
    exact (steps_name isName).bind (.pure _)
  | integer kind =>
    rw [kind]
    exact steps_pop.bind (.pure _)
  | string kind quoted =>
    rw [kind]
    refine steps_pop.bind ?_
    rw [unquote?_of_quoted quoted]
    exact .pure _

/-! ### Lists -/

section Tails

variable {again : List α → Parse (List α × Token)} {found : List α} {comma close : Token}

theorem steps_listTail_close (hclose : close.isOperator ")" = true) :
    Steps (close :: left) (listTail ")" again found) (found, close) left := by
  refine steps_comingUp.bind ?_
  rw [if_pos hclose]
  exact steps_pop.bind (.pure _)

theorem steps_listTail_comma_close (hcomma : comma.isOperator "," = true)
    (hclose : close.isOperator ")" = true) :
    Steps (comma :: close :: left) (listTail ")" again found) (found, close) left := by
  refine steps_comingUp.bind ?_
  rw [isOperator_eq_false hcomma (show "," ≠ ")" by decide), if_neg Bool.false_ne_true]
  refine (steps_expectOperator hcomma).bind (steps_comingUp.bind ?_)
  dsimp only
  rw [isOperator_eq_false hclose (show ")" ≠ "," by decide), if_neg Bool.false_ne_true,
    if_pos hclose]
  exact steps_pop.bind (.pure _)

/-- Behind a comma another element starts with no operator, so the list goes on. -/
theorem leads_listTail (hcomma : comma.isOperator "," = true) (hnext : token.kind ≠ .operator) :
    Leads (comma :: token :: left) (listTail ")" again found) (again found) (token :: left) := by
  refine steps_comingUp.leads.trans ?_
  rw [isOperator_eq_false hcomma (show "," ≠ ")" by decide), if_neg Bool.false_ne_true]
  refine (steps_expectOperator hcomma).leads.trans (steps_comingUp.leads.trans ?_)
  dsimp only
  rw [isOperator_eq_false_of_kind hnext, isOperator_eq_false_of_kind hnext,
    if_neg Bool.false_ne_true, if_neg Bool.false_ne_true]
  exact fun cursor hcursor => ⟨cursor, rfl, hcursor⟩

end Tails

section Lists

variable {element : Parse α} {Element : List Token → α → Prop} {found : List α} {close : Token}
  (hcomposed : Composed 0 element)
  -- elements start with something that is neither a comma nor the end of a list
  (hstart : ∀ {tokens a}, Element tokens a → ∃ token rest,
    tokens = token :: rest ∧ token.kind ≠ .operator)
  (helement : ∀ {tokens a token left}, Element tokens a → LexedTokens (tokens ++ token :: left) →
    token.isOperator "(" = false → Steps (tokens ++ token :: left) element a (token :: left))

include hcomposed hstart helement

/-- An element, and then what is behind it. -/
theorem leads_elementsFrom {a : α} (ha : Element tokens a)
    (hlexed : LexedTokens (tokens ++ token :: left)) (hstop : token.isOperator "(" = false)
    (before : List α) :
    Leads (tokens ++ token :: left) (elementsFrom ")" element before)
      (listTail ")" (elementsFrom ")" element) (before ++ [a])) (token :: left) := by
  have hread := helement ha hlexed hstop
  obtain ⟨first, rest, rfl, hfirst⟩ := hstart ha
  rw [elementsFrom_eq hcomposed]
  refine steps_comingUp.leads.trans ?_
  rw [isOperator_eq_false_of_kind hfirst]
  exact hread.leads

theorem steps_elementsFrom (h : Elements Element tokens found close) (before : List α)
    (hlexed : LexedTokens (tokens ++ left)) :
    Steps (tokens ++ left) (elementsFrom ")" element before) (before ++ found, close) left := by
  have hlead {tokens left : List Token} {a : α} {token : Token} {value : String}
      (ha : Element tokens a) (hlexed : LexedTokens (tokens ++ token :: left))
      (htoken : token.isOperator value = true) (hne : value ≠ "(") (before : List α) :=
    leads_elementsFrom hcomposed hstart helement ha hlexed
      (isOperator_eq_false htoken hne) before
  induction h generalizing before with
  | @last tokens a close ha hclose =>
    rw [append_assoc] at hlexed ⊢
    exact (hlead ha hlexed hclose (by decide) before).steps (steps_listTail_close hclose)
  | @lastComma tokens a comma close ha hcomma hclose =>
    rw [append_assoc] at hlexed ⊢
    exact (hlead ha hlexed hcomma (by decide) before).steps (steps_listTail_comma_close
      hcomma hclose)
  | @more tokens rest a others comma close ha hcomma helements ih =>
    rw [append_assoc] at hlexed ⊢
    have hmore := ih (before ++ [a]) hlexed.of_append.of_cons
    rw [append_assoc] at hmore
    obtain ⟨first, others, rfl, hfirst⟩ := helements.start hstart
    exact (hlead ha hlexed hcomma (by decide) before).steps
      ((leads_listTail hcomma hfirst).steps hmore)

theorem steps_commaList (h : Listed Element tokens found close)
    (hlexed : LexedTokens (tokens ++ left)) :
    Steps (tokens ++ left) (commaList "(" ")" element) (found, close) left := by
  cases h with
  | empty isOpen isClose =>
    refine (steps_expectOperator isOpen).bind (steps_comingUp.bind ?_)
    rw [if_pos isClose]
    exact steps_pop.bind (.pure _)
  | @elements opening close tokens found isOpen elements =>
    refine (steps_expectOperator isOpen).bind ?_
    have hread := steps_elementsFrom hcomposed hstart helement elements [] hlexed.of_cons
    obtain ⟨first, others, rfl, hfirst⟩ := elements.start hstart
    refine steps_comingUp.bind ?_
    rw [isOperator_eq_false_of_kind hfirst, if_neg Bool.false_ne_true]
    exact hread

end Lists

/-! ### Expressions -/

theorem steps_followedBy {arguments : Parse (List Expr × Token)}
    {Argument : List Token → Expr → Prop} (hcomposed : Composed 1 arguments)
    (harguments : ∀ {tokens found close left}, Listed Argument tokens found close →
      LexedTokens (tokens ++ left) →
      Steps (tokens ++ left) arguments (found, close) left) {callee : Expr}
    (h : Calls Argument callee tokens value)
    (hlexed : LexedTokens (tokens ++ left))
    (hline : ∀ token ∈ tokens, callee.location.line ≤ token.location.line) (hstop : Stops left) :
    Steps (tokens ++ left) (followedBy arguments callee) value left := by
  induction h with
  | nil =>
    rw [followedBy_eq hcomposed]
    cases hstop with
    | nil => exact steps_nextIs_nil.bind (.pure _)
    | cons hother =>
      refine steps_nextIs.bind ?_
      rw [show is _ .operator "(" = false from hother, if_neg Bool.false_ne_true]
      exact .pure _
  | @cons callee value tokens rest found close hlisted hcalls ih =>
    rw [append_assoc] at hlexed ⊢
    have hclose : callee.location.line ≤ close.location.line :=
      hline close (mem_append_left _ hlisted.close_mem)
    have hread := harguments hlisted hlexed
    -- a call starts with a parenthesis, which is what shows that there is one
    obtain ⟨opening, inner, rfl, hopen⟩ := hlisted.start
    rw [followedBy_eq hcomposed]
    refine steps_nextIs.bind ?_
    rw [show opening.is .operator "(" = true from hopen, if_pos rfl]
    refine hread.bind ((steps_span hclose).bind (ih hlexed.of_append ?_))
    intro token htoken
    rw [Expr.location, Location.span_line]
    exact hline token (mem_append_right _ htoken)

theorem steps_expression (h : Expression tokens value) (hlexed : LexedTokens (tokens ++ left))
    (hstop : Stops left) :
    Steps (tokens ++ left) expression value left := by
  induction h using Expression.induct generalizing left with
  | mk h primary calls =>
    rw [expression_eq]
    refine (steps_primary primary).bind (steps_followedBy composed_argumentList ?_ calls
      hlexed.of_cons ?_ hstop)
    · refine steps_commaList composed_expression.some ?_ fun h hlexed hother =>
        h.elim fun _ ih => ih hlexed (.cons hother)
      rintro tokens value ⟨hvalue, -⟩
      obtain ⟨token, rest, heq, hkind, -⟩ := hvalue.start
      exact ⟨token, rest, heq, hkind⟩
    · intro token htoken
      rw [primary.location_eq]
      exact hlexed.line_le (mem_append_left _ htoken)

/-- An expression in front of a semicolon. -/
theorem steps_expression_semicolon (h : Expression tokens value)
    (hend : token.isOperator ";" = true) (hlexed : LexedTokens (tokens ++ token :: left)) :
    Steps (tokens ++ token :: left) expression value (token :: left) :=
  steps_expression h hlexed (.cons (isOperator_eq_false hend (by decide)))

/-! ### Statements without blocks -/

theorem steps_expressionStatement (h : Expression tokens value)
    (hend : semicolon.isOperator ";" = true) (hlexed : LexedTokens (tokens ++ semicolon :: left)) :
    Steps (tokens ++ semicolon :: left) expressionStatement
      (.expression value (value.location.span semicolon.location)) left := by
  refine (steps_expression_semicolon h hend hlexed).bind ?_
  refine (steps_expectOperator hend).bind ?_
  have hline := LexedTokens.expression_line_le h hlexed mem_cons_self
  exact (steps_span hline).bind (.pure _)

theorem steps_assignment (hname : IsName token name) (hequals : equals.isOperator "=" = true)
    (hvalue : Expression tokens value) (hend : semicolon.isOperator ";" = true)
    (hlexed : LexedTokens (token :: equals :: (tokens ++ semicolon :: left))) :
    Steps (token :: equals :: (tokens ++ semicolon :: left)) assignment
      (.assignment name value (token.location.span semicolon.location)) left := by
  have hline : token.location.line ≤ semicolon.location.line := hlexed.line_le (by simp)
  have hread := steps_expression_semicolon hvalue hend hlexed.of_cons.of_cons
  refine (steps_name hname).bind ((steps_expectOperator hequals).bind (hread.bind ?_))
  obtain rfl := hname.2.2
  exact (steps_expectOperator hend).bind ((steps_span hline).bind (.pure _))

theorem steps_declaration (htype : IsName first type) (hname : IsName second name)
    (hend : semicolon.isOperator ";" = true)
    (hlexed : LexedTokens (first :: second :: semicolon :: left)) :
    Steps (first :: second :: semicolon :: left) declaration
      { first := .declaration type name.text (first.location.span semicolon.location) } left := by
  have hline : first.location.line ≤ semicolon.location.line := hlexed.line_le (by simp)
  refine (steps_name htype).bind ((steps_name hname).bind (steps_comingUp.bind ?_))
  obtain rfl := htype.2.2
  rw [if_pos hend]
  exact steps_pop.bind ((steps_span hline).bind (.pure _))

theorem steps_initialised (htype : IsName first type) (hname : IsName second name)
    (hequals : equals.isOperator "=" = true) (hvalue : Expression tokens value)
    (hend : semicolon.isOperator ";" = true)
    (hlexed : LexedTokens (first :: second :: equals :: (tokens ++ semicolon :: left))) :
    Steps (first :: second :: equals :: (tokens ++ semicolon :: left)) declaration
      { first := .declaration type name.text (first.location.span second.location)
        others := [.assignment name value (second.location.span semicolon.location)] } left := by
  have hdeclared : first.location.line ≤ second.location.line := hlexed.line_le (by simp)
  have hassigned : second.location.line ≤ semicolon.location.line :=
    hlexed.of_cons.line_le (by simp)
  have hread := steps_expression_semicolon hvalue hend hlexed.of_cons.of_cons.of_cons
  refine (steps_name htype).bind ((steps_name hname).bind (steps_comingUp.bind ?_))
  obtain rfl := htype.2.2
  obtain rfl := hname.2.2
  rw [isOperator_eq_false hequals (show "=" ≠ ";" by decide), if_neg Bool.false_ne_true]
  refine (steps_expectOperator hequals).bind (hread.bind ((steps_expectOperator hend).bind ?_))
  exact (steps_span hdeclared).bind ((steps_span hassigned).bind (.pure _))

theorem steps_result {word : Token} (hword : word.is .name "return" = true)
    (hvalue : Expression tokens value) (hend : semicolon.isOperator ";" = true)
    (hlexed : LexedTokens (word :: (tokens ++ semicolon :: left))) :
    Steps (word :: (tokens ++ semicolon :: left)) result
      (.result value (word.location.span semicolon.location)) left := by
  have hline : word.location.line ≤ semicolon.location.line := hlexed.line_le (by simp)
  have hread := steps_expression_semicolon hvalue hend hlexed.of_cons
  refine (steps_expectWord hword).bind (hread.bind ((steps_expectOperator hend).bind ?_))
  exact (steps_span hline).bind (.pure _)

/-- Behind the first token of an expression statement there is neither an equals sign nor a name. -/
theorem expression_second (h : Expression (token :: rest) value)
    (hend : semicolon.isOperator ";" = true) :
    ∃ second more, rest ++ [semicolon] = second :: more ∧ second.isOperator "=" = false ∧
      second.kind ≠ .name := by
  have hother {second : Token} {value : String} (hsecond : second.isOperator value = true)
      (hne : value ≠ "=") : second.isOperator "=" = false ∧ second.kind ≠ .name := by
    refine ⟨isOperator_eq_false hsecond hne, ?_⟩
    rw [kind_of_isOperator hsecond]
    decide
  obtain ⟨primary, calls⟩ := h
  cases calls with
  | nil => exact ⟨semicolon, [], rfl, hother hend (by decide)⟩
  | cons listed =>
    obtain ⟨opening, inner, rfl, hopen⟩ := listed.start
    exact ⟨opening, _, rfl, hother hopen (by decide)⟩

theorem steps_plainStatement_expression (h : Expression (token :: rest) value)
    (hend : semicolon.isOperator ";" = true)
    (hlexed : LexedTokens ((token :: rest) ++ semicolon :: left)) :
    Steps ((token :: rest) ++ semicolon :: left) plainStatement
      { first := .expression value (value.location.span semicolon.location) } left := by
  have hread := steps_expressionStatement h hend hlexed
  obtain ⟨second, more, heq, hequals, hkind⟩ := expression_second h hend
  have htokens : (token :: rest) ++ semicolon :: left = token :: second :: (more ++ left) := by
    simpa using congrArg (fun tokens => token :: (tokens ++ left)) heq
  rw [htokens] at hread ⊢
  refine steps_second.bind ?_
  dsimp only [head?_cons]
  rw [hequals, if_neg Bool.false_ne_true, if_neg hkind]
  exact hread.bind (.pure _)

/-! ### Statements with blocks -/

theorem steps_parameters {parameters : List Parameter} {close : Token}
    (h : Listed IsParameter tokens parameters close) (hlexed : LexedTokens (tokens ++ left)) :
    Steps (tokens ++ left) (commaList "(" ")" parameter) (parameters, close) left := by
  refine steps_commaList composed_parameter.some ?_ ?_ h hlexed
  · rintro tokens parameter ⟨isType, isName⟩
    refine ⟨_, _, rfl, ?_⟩
    rw [isType.1]
    decide
  · rintro tokens parameter token left ⟨isType, isName⟩ - -
    exact (steps_name isType).bind ((steps_name isName).bind (.pure _))

section Blocks

variable {Inner : List Token → List Stmt → Prop} {close : Token} {body : List Stmt}
  (hstart : ∀ {tokens group}, Inner tokens group → ∃ token rest,
    tokens = token :: rest ∧ token.kind ≠ .operator)
  (hinner : ∀ {tokens group left}, Inner tokens group → LexedTokens (tokens ++ left) →
    ∃ found : Group, found.toList = group ∧ Steps (tokens ++ left) statement found left)
  {word : Token}
  {rest : List Token}

include hstart hinner

theorem steps_bodyFrom (h : Sequence Inner tokens body) (hclose : close.isOperator "\x7d" = true)
    (before : List Stmt) (hlexed : LexedTokens (tokens ++ close :: left)) :
    Steps (tokens ++ close :: left) (bodyFrom statement before) (before ++ body)
      (close :: left) := by
  induction h generalizing before with
  | nil =>
    rw [bodyFrom_eq composed_statement]
    refine steps_comingUp.bind ?_
    rw [if_pos hclose, append_nil]
    exact .pure _
  | @cons tokens rest group stmts hgroup hsequence ih =>
    rw [append_assoc] at hlexed ⊢
    obtain ⟨found, rfl, hread⟩ := hinner hgroup hlexed
    obtain ⟨first, inner, rfl, hfirst⟩ := hstart hgroup
    rw [bodyFrom_eq composed_statement]
    refine steps_comingUp.bind ?_
    rw [isOperator_eq_false_of_kind hfirst, if_neg Bool.false_ne_true]
    refine hread.bind ?_
    rw [← append_assoc]
    exact ih (before ++ found.toList) hlexed.of_append

theorem steps_block (h : Block Inner tokens body close) (hlexed : LexedTokens (tokens ++ left)) :
    Steps (tokens ++ left) (block statement) (body, close) left := by
  obtain ⟨isOpen, sequence, isClose⟩ := h
  simp only [cons_append, nil_append, append_assoc] at hlexed ⊢
  have hbody := steps_bodyFrom hstart hinner sequence isClose [] hlexed.of_cons
  exact (steps_expectOperator isOpen).bind (hbody.bind (steps_pop.bind (.pure _)))

theorem steps_conditional {condition : Expr} (hword : word.is .name "if" = true)
    (hcondition : Expression tokens condition) (hblock : Block Inner rest body close)
    (hlexed : LexedTokens (word :: (tokens ++ (rest ++ left)))) :
    Steps (word :: (tokens ++ (rest ++ left))) (conditional statement)
      (.conditional condition body (word.location.span close.location)) left := by
  have hline : word.location.line ≤ close.location.line :=
    hlexed.line_le (by simp [hblock.close_mem])
  have hread := steps_block hstart hinner hblock hlexed.of_cons.of_append
  have hstop : Stops (rest ++ left) := by
    obtain ⟨isOpen, -, -⟩ := hblock
    exact .cons (isOperator_eq_false isOpen (by decide))
  refine (steps_expectWord hword).bind ?_
  refine (steps_expression hcondition hlexed.of_cons hstop).bind (hread.bind ?_)
  exact (steps_span hline).bind (.pure _)

theorem steps_function {last : Token} {name : Name} {parameters : List Parameter}
    {returnType : Option Name} {listTokens typeTokens : List Token}
    (hword : word.is .name "function" = true) (hname : IsName token name)
    (hlisted : Listed IsParameter listTokens parameters last)
    (htype : ReturnType typeTokens returnType) (hblock : Block Inner rest body close)
    (hlexed : LexedTokens (word :: token :: (listTokens ++ (typeTokens ++ (rest ++ left))))) :
    Steps (word :: token :: (listTokens ++ (typeTokens ++ (rest ++ left)))) (function statement)
      (.function name.text parameters returnType body
        (word.location.span close.location)) left := by
  have hline : word.location.line ≤ close.location.line :=
    hlexed.line_le (by simp [hblock.close_mem])
  have hlist := steps_parameters hlisted hlexed.of_cons.of_cons
  have hread := steps_block hstart hinner hblock hlexed.of_cons.of_cons.of_append.of_append
  have hend : Steps (rest ++ left) (do
        let read ← block statement
        return Stmt.function name.text parameters returnType read.1
          (← span word.location read.2.location))
      (.function name.text parameters returnType body (word.location.span close.location)) left :=
    hread.bind ((steps_span hline).bind (.pure _))
  refine (steps_expectWord hword).bind ((steps_name hname).bind (hlist.bind ?_))
  cases htype with
  | nothing =>
    -- a block starts with a brace, and not with the word in front of a type
    obtain ⟨isOpen, -, -⟩ := hblock
    refine steps_comingUp.bind ?_
    dsimp only
    rw [is_eq_false_of_kind (by rw [kind_of_isOperator isOpen]; decide),
      if_neg Bool.false_ne_true, pure_bind]
    exact hend
  | type isWord isName =>
    refine steps_comingUp.bind ?_
    dsimp only
    rw [if_pos isWord]
    refine steps_pop.bind ((steps_name isName).bind ?_)
    rw [pure_bind]
    exact hend

end Blocks

/-- A statement with a leading name of its own is none of those with a leading word. -/
theorem steps_statementForm_plain (hname : IsName token name) {group : Group}
    (h : Steps (token :: tokens) plainStatement group left) :
    Steps (token :: tokens) (statementForm statement) group left := by
  obtain ⟨hkind, hreserved, -⟩ := hname
  have hne (word : String) (hword : word ∈ reservedWords) : token.value ≠ word :=
    fun heq => hreserved (heq ▸ hword)
  refine steps_comingUp.bind ?_
  rw [if_pos hkind, if_neg (hne "return" (by decide)), if_neg (hne "if" (by decide)),
    if_neg (hne "function" (by decide))]
  exact h

theorem steps_statement {group : List Stmt} (h : Statement tokens group)
    (hlexed : LexedTokens (tokens ++ left)) :
    ∃ found : Group, found.toList = group ∧ Steps (tokens ++ left) statement found left := by
  induction h using Statement.induct generalizing left with
  | step h hblock =>
    rw [statement_eq]
    -- a word picks the form; behind another name, the second token does
    cases h with
    | @result word semicolon tokens value isWord expression isEnd =>
      obtain ⟨hkind, hvalue⟩ := is_eq_true_iff.mp isWord
      simp only [cons_append, append_assoc] at hlexed ⊢
      refine ⟨⟨_, []⟩, rfl, steps_comingUp.bind ?_⟩
      rw [if_pos hkind, if_pos hvalue]
      exact (steps_result isWord expression isEnd hlexed).bind (.pure _)
    | @conditional word close tokens rest condition body isWord expression block =>
      obtain ⟨hkind, hvalue⟩ := is_eq_true_iff.mp isWord
      simp only [cons_append, append_assoc] at hlexed ⊢
      refine ⟨⟨_, []⟩, rfl, steps_comingUp.bind ?_⟩
      rw [if_pos hkind, hvalue, if_neg (by decide), if_pos rfl]
      exact (steps_conditional (·.elim fun h _ => h.start) (·.elim fun _ ih => ih) isWord expression
        (hblock block (by grind)) hlexed).bind (.pure _)
    | function isWord isName listed type block =>
      obtain ⟨hkind, hvalue⟩ := is_eq_true_iff.mp isWord
      simp only [cons_append, append_assoc] at hlexed ⊢
      refine ⟨⟨_, []⟩, rfl, steps_comingUp.bind ?_⟩
      rw [if_pos hkind, hvalue, if_neg (by decide), if_neg (by decide), if_pos rfl]
      exact (steps_function (·.elim fun h _ => h.start) (·.elim fun _ ih => ih) isWord
        isName listed type (hblock block (by grind)) hlexed).bind (.pure _)
    | assignment isName isEquals expression isEnd =>
      simp only [cons_append, append_assoc] at hlexed ⊢
      refine ⟨⟨_, []⟩, rfl, steps_statementForm_plain isName (steps_second.bind ?_)⟩
      dsimp only [head?_cons]
      rw [if_pos isEquals]
      exact (steps_assignment isName isEquals expression isEnd hlexed).bind (.pure _)
    | declaration isType isName isEnd =>
      simp only [cons_append, nil_append] at hlexed ⊢
      refine ⟨⟨_, []⟩, rfl, steps_statementForm_plain isType (steps_second.bind ?_)⟩
      dsimp only [head?_cons]
      rw [isOperator_eq_false_of_kind (by rw [isName.1]; decide), if_neg Bool.false_ne_true,
        if_pos isName.1]
      exact steps_declaration isType isName isEnd hlexed
    | initialised isType isName isEquals expression isEnd =>
      simp only [cons_append, append_assoc] at hlexed ⊢
      refine ⟨⟨_, [_]⟩, rfl, steps_statementForm_plain isType (steps_second.bind ?_)⟩
      dsimp only [head?_cons]
      rw [isOperator_eq_false_of_kind (by rw [isName.1]; decide), if_neg Bool.false_ne_true,
        if_pos isName.1]
      exact steps_initialised isType isName isEquals expression isEnd hlexed
    | expression expression isEnd =>
      rw [append_assoc] at hlexed ⊢
      have hplain := steps_expressionStatement expression isEnd hlexed
      have hform := expression
      refine ⟨⟨_, []⟩, rfl, ?_⟩
      obtain ⟨primary, calls⟩ := hform
      cases primary with
      | name isName =>
        exact steps_statementForm_plain isName (steps_plainStatement_expression
          expression isEnd hlexed)
      | integer kind | string kind =>
        refine steps_comingUp.bind ?_
        rw [if_neg (by rw [kind]; decide)]
        exact hplain.bind (.pure _)

end Parse

end FrontEnd
