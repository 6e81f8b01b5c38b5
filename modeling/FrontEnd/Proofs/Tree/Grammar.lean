import FrontEnd.Token.Basic
import FrontEnd.Tree.Basic

/-!
# The grammar

Which tokens form which trees, as relations between them.

A name is a word that is not reserved. Trees have places, and the relations say which: a tree covers
everything from its first token to its last one. Only a declaration with a value is two statements,
of which the first ends with the name that is declared and the second starts with it.
-/

namespace FrontEnd

namespace Grammar

variable {tokens : List Token} {value : Expr} {group : List Stmt} {close token : Token}

/-- A word that can name something. -/
def IsName (token : Token) (name : Name) : Prop :=
  token.kind = .name ∧ token.value ∉ Token.reservedWords ∧ name = ⟨token.value, token.location⟩

/-- A token that is an expression by itself. -/
inductive Primary : Token → Expr → Prop
  | name {token : Token} {name : Name} (isName : IsName token name) : Primary token (.name name)
  | integer {token : Token} (kind : token.kind = .integer) :
      Primary token (.integer token.value token.location)
  | string {token : Token} {inner : List Char} (kind : token.kind = .string)
      (quoted : token.value.toList = '"' :: (inner ++ ['"'])) :
      Primary token (.string (String.ofList inner) token.location)

section Lists

variable {α : Type} (Element : List Token → α → Prop)

/-- The elements of a list with commas between them, up to the token that closes the list. There may
be a comma behind the last element. -/
inductive Elements : List Token → List α → Token → Prop
  | last {tokens : List Token} {a : α} {close : Token} (element : Element tokens a)
      (isClose : close.isOperator ")" = true) : Elements (tokens ++ [close]) [a] close
  | lastComma {tokens : List Token} {a : α} {comma close : Token} (element : Element tokens a)
      (isComma : comma.isOperator "," = true) (isClose : close.isOperator ")" = true) :
      Elements (tokens ++ [comma, close]) [a] close
  | more {tokens rest : List Token} {a : α} {others : List α} {comma close : Token}
      (element : Element tokens a) (isComma : comma.isOperator "," = true)
      (elements : Elements rest others close) :
      Elements (tokens ++ comma :: rest) (a :: others) close

/-- A list, with the token that closes it. -/
inductive Listed : List Token → List α → Token → Prop
  | empty {opening close : Token} (isOpen : opening.isOperator "(" = true)
      (isClose : close.isOperator ")" = true) : Listed [opening, close] [] close
  | elements {opening close : Token} {tokens : List Token} {found : List α}
      (isOpen : opening.isOperator "(" = true) (elements : Elements Element tokens found close) :
      Listed (opening :: tokens) found close

end Lists

/-- The calls behind an expression, each of them of all that is in front of it. -/
inductive Calls (Argument : List Token → Expr → Prop) : Expr → List Token → Expr → Prop
  | nil {callee : Expr} : Calls Argument callee [] callee
  | cons {callee value : Expr} {tokens rest : List Token} {arguments : List Expr} {close : Token}
      (listed : Listed Argument tokens arguments close)
      (calls : Calls Argument (.call callee arguments (callee.location.span close.location)) rest
        value) :
      Calls Argument callee (tokens ++ rest) value

/-- Expressions. -/
inductive Expression : List Token → Expr → Prop
  | mk {token : Token} {rest : List Token} {first value : Expr} (primary : Primary token first)
      (calls : Calls Expression first rest value) : Expression (token :: rest) value

/-- A type and a name. -/
inductive IsParameter : List Token → Parameter → Prop
  | mk {first second : Token} {type name : Name} (isType : IsName first type)
      (isName : IsName second name) : IsParameter [first, second] ⟨type, name⟩

/-- The type of the value of a function, if it has one. -/
inductive ReturnType : List Token → Option Name → Prop
  | nothing : ReturnType [] none
  | type {word token : Token} {name : Name} (isWord : word.is .name "returns" = true)
      (isName : IsName token name) : ReturnType [word, token] (some name)

section Blocks

variable (Statement : List Token → List Stmt → Prop)

/-- Statements one after the other. -/
inductive Sequence : List Token → List Stmt → Prop
  | nil : Sequence [] []
  | cons {tokens rest : List Token} {group stmts : List Stmt} (statement : Statement tokens group)
      (sequence : Sequence rest stmts) : Sequence (tokens ++ rest) (group ++ stmts)

/-- Statements between braces, with the closing one. -/
inductive Block : List Token → List Stmt → Token → Prop
  | mk {opening close : Token} {tokens : List Token} {body : List Stmt}
      (isOpen : opening.isOperator "\x7b" = true) (sequence : Sequence Statement tokens body)
      (isClose : close.isOperator "\x7d" = true) : Block (opening :: (tokens ++ [close])) body close

end Blocks

/-- Statements. -/
inductive Statement : List Token → List Stmt → Prop
  | result {word semicolon : Token} {tokens : List Token} {value : Expr}
      (isWord : word.is .name "return" = true) (expression : Expression tokens value)
      (isEnd : semicolon.isOperator ";" = true) :
      Statement (word :: (tokens ++ [semicolon]))
        [.result value (word.location.span semicolon.location)]
  | conditional {word close : Token} {tokens rest : List Token} {condition : Expr}
      {body : List Stmt} (isWord : word.is .name "if" = true)
      (expression : Expression tokens condition) (block : Block Statement rest body close) :
      Statement (word :: (tokens ++ rest))
        [.conditional condition body (word.location.span close.location)]
  | function {word token close last : Token} {name : Name} {parameters : List Parameter}
      {returnType : Option Name} {body : List Stmt} {listTokens typeTokens rest : List Token}
      (isWord : word.is .name "function" = true) (isName : IsName token name)
      (listed : Listed IsParameter listTokens parameters last)
      (type : ReturnType typeTokens returnType) (block : Block Statement rest body close) :
      Statement (word :: token :: (listTokens ++ (typeTokens ++ rest)))
        [.function name.text parameters returnType body (word.location.span close.location)]
  | assignment {token equals semicolon : Token} {name : Name} {tokens : List Token} {value : Expr}
      (isName : IsName token name) (isEquals : equals.isOperator "=" = true)
      (expression : Expression tokens value) (isEnd : semicolon.isOperator ";" = true) :
      Statement (token :: equals :: (tokens ++ [semicolon]))
        [.assignment name value (token.location.span semicolon.location)]
  | declaration {first second semicolon : Token} {type name : Name} (isType : IsName first type)
      (isName : IsName second name) (isEnd : semicolon.isOperator ";" = true) :
      Statement [first, second, semicolon]
        [.declaration type name.text (first.location.span semicolon.location)]
  | initialised {first second equals semicolon : Token} {type name : Name} {tokens : List Token}
      {value : Expr} (isType : IsName first type) (isName : IsName second name)
      (isEquals : equals.isOperator "=" = true) (expression : Expression tokens value)
      (isEnd : semicolon.isOperator ";" = true) :
      Statement (first :: second :: equals :: (tokens ++ [semicolon]))
        [.declaration type name.text (first.location.span second.location),
          .assignment name value (second.location.span semicolon.location)]
  | expression {semicolon : Token} {tokens : List Token} {value : Expr}
      (expression : Expression tokens value) (isEnd : semicolon.isOperator ";" = true) :
      Statement (tokens ++ [semicolon])
        [.expression value (value.location.span semicolon.location)]

/-- Files. -/
abbrev File : List Token → List Stmt → Prop :=
  Sequence Statement

/-! ### Induction -/

/-- Induction on expressions: the arguments of calls have the property. -/
theorem Expression.induct
    {motive : (tokens : List Token) → (value : Expr) → Expression tokens value → Prop}
    (mk : ∀ {token rest first value} (h : Expression (token :: rest) value), Primary token first →
      Calls (fun tokens value => ∃ h, motive tokens value h) first rest value →
      motive (token :: rest) value h)
    (h : Expression tokens value) : motive tokens value h :=
  @Expression.rec motive
    (fun callee tokens value _ =>
      Calls (fun tokens value => ∃ h, motive tokens value h) callee tokens value)
    (fun tokens found close _ =>
      Listed (fun tokens value => ∃ h, motive tokens value h) tokens found close)
    (fun tokens found close _ =>
      Elements (fun tokens value => ∃ h, motive tokens value h) tokens found close)
    (fun primary calls ih => mk (.mk primary calls) primary ih) .nil
    (fun _ _ ihlisted ihcalls => .cons ihlisted ihcalls) .empty
    (fun isOpen _ ih => .elements isOpen ih) (fun element isClose ih => .last ⟨element, ih⟩ isClose)
    (fun element isComma isClose ih => .lastComma ⟨element, ih⟩ isComma isClose)
    (fun element isComma _ ih ihrest => .more ⟨element, ih⟩ isComma ihrest) tokens value h

/-- Induction on statements: those in blocks, which are shorter, have the property. -/
theorem Statement.induct
    {motive : (tokens : List Token) → (group : List Stmt) → Statement tokens group → Prop}
    (step : ∀ {tokens group} (h : Statement tokens group),
      (∀ {part body close}, Block Statement part body close → part.length < tokens.length →
        Block (fun tokens group => ∃ h, motive tokens group h) part body close) →
      motive tokens group h)
    (h : Statement tokens group) : motive tokens group h := by
  induction hlength : tokens.length using Nat.strongRecOn generalizing tokens group with
  | ind length ih =>
    refine step h fun {part body close} block hshorter => ?_
    obtain ⟨isOpen, sequence, isClose⟩ := block
    refine .mk isOpen ?_ isClose
    simp only [List.length_cons, List.length_append] at hshorter
    clear isOpen isClose
    induction sequence with
    | nil => exact .nil
    | cons statement sequence ihrest =>
      rw [List.length_append] at hshorter
      exact .cons ⟨statement, ih _ (by omega) statement rfl⟩ (ihrest (by omega))

theorem Listed.mono {α : Type} {Element Other : List Token → α → Prop} {found : List α}
    (h : Listed Element tokens found close)
    (hmono : ∀ {tokens a}, Element tokens a → Other tokens a) :
    Listed Other tokens found close := by
  cases h with
  | empty isOpen isClose => exact .empty isOpen isClose
  | elements isOpen elements =>
    refine .elements isOpen ?_
    induction elements with
    | last element isClose => exact .last (hmono element) isClose
    | lastComma element isComma isClose => exact .lastComma (hmono element) isComma isClose
    | more element isComma _ ih => exact .more (hmono element) isComma ih

/-! ### Where trees start and end -/

theorem Primary.location_eq (h : Primary token value) : value.location = token.location := by
  cases h with
  | name isName => rw [isName.2.2]; rfl
  | integer | string => rfl

theorem Primary.kind_ne (h : Primary token value) : token.kind ≠ .operator := by
  cases h with
  | name isName => simp [isName.1]
  | integer kind => simp [kind]
  | string kind => simp [kind]

theorem Calls.line_eq {Argument : List Token → Expr → Prop} {callee : Expr}
    (h : Calls Argument callee tokens value) :
    value.location.line = callee.location.line := by
  induction h with
  | nil => rfl
  | cons listed calls ih => exact ih.trans (Location.span_line _ _)

/-- An expression starts with a token that is no operator, on the line of the expression. -/
theorem Expression.start (h : Expression tokens value) :
      ∃ token rest, tokens = token :: rest ∧ token.kind ≠ .operator ∧
        value.location.line = token.location.line := by
  cases h with
  | mk primary calls =>
    exact ⟨_, _, rfl, primary.kind_ne, by rw [calls.line_eq, primary.location_eq]⟩

section Lists

variable {α : Type} {Element : List Token → α → Prop} {tokens : List Token} {found : List α}
  {close : Token}

theorem Elements.close_mem (h : Elements Element tokens found close) : close ∈ tokens := by
  induction h with
  | last | lastComma => simp
  | more element isComma elements ih => simp [ih]

/-- A list starts as its first element does. -/
theorem Elements.start {P : Token → Prop}
    (hstart : ∀ {tokens a}, Element tokens a → ∃ token rest, tokens = token :: rest ∧ P token)
    (h : Elements Element tokens found close) : ∃ token rest, tokens = token :: rest ∧ P token := by
  cases h with
  | last element | lastComma element | more element =>
    obtain ⟨token, rest, rfl, htoken⟩ := hstart element
    exact ⟨token, _, rfl, htoken⟩

theorem Listed.close_mem (h : Listed Element tokens found close) : close ∈ tokens := by
  cases h with
  | empty => simp
  | elements isOpen elements => exact List.mem_cons_of_mem _ elements.close_mem

theorem Listed.start (h : Listed Element tokens found close) :
    ∃ opening rest, tokens = opening :: rest ∧ opening.isOperator "(" = true := by
  cases h with
  | empty isOpen | elements isOpen => exact ⟨_, _, rfl, isOpen⟩

end Lists

theorem Block.close_mem {Statement : List Token → List Stmt → Prop} {body : List Stmt}
    (h : Block Statement tokens body close) : close ∈ tokens := by
  cases h with
  | mk => simp

/-- No statement starts with an operator. -/
theorem Statement.start (h : Statement tokens group) :
    ∃ token rest, tokens = token :: rest ∧ token.kind ≠ .operator := by
  have hword {token : Token} {value : String} (h : token.is .name value = true) :
      token.kind ≠ .operator := by
    rw [(Token.is_eq_true_iff.mp h).1]
    decide
  have hname {token : Token} {name : Name} (h : IsName token name) : token.kind ≠ .operator := by
    rw [h.1]
    decide
  cases h with
  | result isWord | conditional isWord | function isWord => exact ⟨_, _, rfl, hword isWord⟩
  | assignment isName => exact ⟨_, _, rfl, hname isName⟩
  | declaration isType | initialised isType => exact ⟨_, _, rfl, hname isType⟩
  | expression expression =>
    obtain ⟨token, rest, rfl, hkind, -⟩ := expression.start
    exact ⟨token, _, rfl, hkind⟩

end Grammar

end FrontEnd
