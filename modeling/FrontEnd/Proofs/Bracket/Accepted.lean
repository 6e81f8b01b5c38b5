import FrontEnd.Proofs.Bracket.Dyck
import FrontEnd.Proofs.Layout.Independence

/-!
# The check of brackets refuses no program

Brackets are checked before statements are read, by a stack that knows nothing of statements; and
the grammar has its own brackets, wherever there is a list or a block. The two agree on what is a
program: the tokens of every statement pair up (`Grammar.Statement.balanced`), and so do those of a
sequence of statements. This holds for any tokens, whether a text gives them or not. So a text is
compiled the same without the check, unless it is refused both ways. Then the check has only chosen
the error.
-/

namespace FrontEnd

open Program

namespace Bracket

variable {token : Token}

/-- Tokens whose brackets pair up. -/
def Balanced (tokens : List Token) : Prop :=
  Dyck (word tokens)

namespace Balanced

variable {tokens more : List Token} {token : Token}

theorem nil : Balanced [] := Dyck.nil

theorem cons (htoken : side? token = none) (h : Balanced tokens) : Balanced (token :: tokens) := by
  rw [Balanced, word_cons_of_none htoken]
  exact h

theorem append (h : Balanced tokens) (hmore : Balanced more) : Balanced (tokens ++ more) := by
  rw [Balanced, word_append]
  exact Dyck.append h hmore

theorem pair {opening close : Token} {bracket : Bracket} (hopen : openedBy? opening = some bracket)
    (h : Balanced tokens) (hclose : closedBy? close = some bracket) :
    Balanced (opening :: (tokens ++ [close])) := by
  rw [Balanced, word_cons_of_side? (side?_of_openedBy? hopen), word_append,
    word_cons_of_side? (side?_of_closedBy? hclose)]
  exact .pair h .nil

end Balanced

/-- Only operators are brackets. -/
theorem side?_of_kind (h : token.kind ≠ .operator) : side? token = none := by
  have hnot (value : String) : token.isOperator value = false := by
    simp [Token.isOperator, Token.is, h]
  rw [side?, openedBy?, closedBy?, hnot, hnot, hnot, hnot]
  rfl

theorem side?_of_name (h : token.kind = .name) : side? token = none :=
  side?_of_kind (by rw [h]; decide)

/-- An operator that is not the text of a bracket. -/
theorem side?_of_isOperator {value : String} (h : token.isOperator value = true)
    (hvalue : side? ⟨.operator, value, default⟩ = none) : side? token = none := by
  obtain ⟨kind, text, location⟩ := token
  obtain ⟨rfl, rfl⟩ := Token.is_eq_true_iff.mp h
  exact hvalue

theorem openedBy?_of_isOperator (bracket : Bracket)
    (h : token.isOperator bracket.opener.toString = true) :
    openedBy? token = some bracket := by
  obtain ⟨kind, text, location⟩ := token
  obtain ⟨rfl, rfl⟩ := Token.is_eq_true_iff.mp h
  cases bracket <;> rfl

theorem closedBy?_of_isOperator (bracket : Bracket)
    (h : token.isOperator bracket.closer.toString = true) :
    closedBy? token = some bracket := by
  obtain ⟨kind, text, location⟩ := token
  obtain ⟨rfl, rfl⟩ := Token.is_eq_true_iff.mp h
  cases bracket <;> rfl

end Bracket

namespace Grammar

open FrontEnd.Bracket (Balanced side?_of_kind side?_of_name side?_of_isOperator
  openedBy?_of_isOperator closedBy?_of_isOperator)

variable {token : Token} {tokens : List Token}

theorem IsName.side?_eq_none {name : Name} (h : IsName token name) : Bracket.side? token = none :=
  side?_of_name h.1

theorem side?_of_word {word : String} (h : token.is .name word = true) :
    Bracket.side? token = none :=
  side?_of_name (Token.is_eq_true_iff.mp h).1

section Lists

variable {α : Type} {Element : List Token → α → Prop} {tokens : List Token} {found : List α}
  {close : Token} (helement : ∀ {tokens a}, Element tokens a → Balanced tokens)

include helement

/-- The tokens of a list pair up but for the closing one, whose other side is in front of them. -/
theorem Elements.balanced (h : Elements Element tokens found close) :
    ∃ inner, tokens = inner ++ [close] ∧ Balanced inner ∧ close.isOperator ")" = true := by
  induction h with
  | last element isClose => exact ⟨_, rfl, helement element, isClose⟩
  | @lastComma tokens a comma close element isComma isClose =>
    have hcomma : Balanced [comma] := .cons (side?_of_isOperator isComma rfl) .nil
    exact ⟨tokens ++ [comma], by simp, (helement element).append hcomma, isClose⟩
  | @more tokens rest a others comma close element isComma elements ih =>
    obtain ⟨inner, rfl, hinner, hclose⟩ := ih
    have hrest : Balanced (comma :: inner) := .cons (side?_of_isOperator isComma rfl) hinner
    exact ⟨tokens ++ comma :: inner, by simp, (helement element).append hrest, hclose⟩

theorem Listed.balanced (h : Listed Element tokens found close) : Balanced tokens := by
  cases h with
  | empty isOpen isClose =>
    exact .pair (openedBy?_of_isOperator .parenthesis isOpen) .nil
      (closedBy?_of_isOperator .parenthesis isClose)
  | elements isOpen elements =>
    obtain ⟨inner, rfl, hinner, hclose⟩ := elements.balanced helement
    exact .pair (openedBy?_of_isOperator .parenthesis isOpen) hinner
      (closedBy?_of_isOperator .parenthesis hclose)

end Lists

theorem Expression.balanced {value : Expr} (h : Expression tokens value) : Balanced tokens := by
  induction h using Expression.induct with
  | mk h primary calls =>
    refine .cons (side?_of_kind primary.kind_ne) ?_
    clear h primary
    induction calls with
    | nil => exact .nil
    | cons listed _ ih => exact (listed.balanced (·.elim fun _ hargument => hargument)).append ih

theorem IsParameter.balanced {parameter : Parameter} (h : IsParameter tokens parameter) :
    Balanced tokens := by
  cases h with
  | mk isType isName => exact .cons isType.side?_eq_none (.cons isName.side?_eq_none .nil)

theorem ReturnType.balanced {returnType : Option Name} (h : ReturnType tokens returnType) :
    Balanced tokens := by
  cases h with
  | nothing => exact .nil
  | type isWord isName => exact .cons (side?_of_word isWord) (.cons isName.side?_eq_none .nil)

theorem Sequence.balanced {Statement : List Token → List Stmt → Prop} {stmts : List Stmt}
    (h : Sequence Statement tokens stmts)
    (hstatement : ∀ {tokens group}, Statement tokens group → Balanced tokens) :
    Balanced tokens := by
  induction h with
  | nil => exact .nil
  | cons statement _ ih => exact (hstatement statement).append ih

/-- **The tokens of a statement pair up.** -/
theorem Statement.balanced {group : List Stmt} (h : Statement tokens group) : Balanced tokens := by
  induction h using Statement.induct with
  | @step tokens group h hblock =>
    have hbody {part : List Token} {body : List Stmt} {close : Token}
        (block : Block Statement part body close) (hlength : part.length < tokens.length) :
        Balanced part := by
      obtain ⟨isOpen, sequence, isClose⟩ := hblock block hlength
      exact .pair (openedBy?_of_isOperator .brace isOpen)
        (sequence.balanced (·.elim fun _ hstatement => hstatement))
        (closedBy?_of_isOperator .brace isClose)
    have hend {semicolon : Token} (isEnd : semicolon.isOperator ";" = true) :
        Balanced [semicolon] :=
      .cons (side?_of_isOperator isEnd rfl) .nil
    cases h with
    | result isWord expression isEnd =>
      exact .cons (side?_of_word isWord) (expression.balanced.append (hend isEnd))
    | conditional isWord expression block =>
      exact .cons (side?_of_word isWord) (expression.balanced.append (hbody block (by grind)))
    | function isWord isName listed type block =>
      refine .cons (side?_of_word isWord) (.cons isName.side?_eq_none ?_)
      refine (listed.balanced IsParameter.balanced).append ?_
      exact type.balanced.append (hbody block (by grind))
    | assignment isName isEquals expression isEnd =>
      refine .cons isName.side?_eq_none (.cons (side?_of_isOperator isEquals rfl) ?_)
      exact expression.balanced.append (hend isEnd)
    | declaration isType isName isEnd =>
      exact .cons isType.side?_eq_none (.cons isName.side?_eq_none (hend isEnd))
    | initialised isType isName isEquals expression isEnd =>
      refine .cons isType.side?_eq_none (.cons isName.side?_eq_none
        (.cons (side?_of_isOperator isEquals rfl) ?_))
      exact expression.balanced.append (hend isEnd)
    | expression expression isEnd => exact expression.balanced.append (hend isEnd)

end Grammar

/-- The quotes of strings are no brackets. -/
theorem Bracket.word_map_requoted (tokens : List Token) :
    word (tokens.map Token.requoted) = word tokens := by
  have hside (token : Token) : side? token.requoted = side? token := by
    by_cases hkind : token.kind = .string
    · have hnot : token.kind ≠ .operator := by rw [hkind]; decide
      rw [side?_of_kind hnot, side?_of_kind (show token.requoted.kind ≠ .operator from hnot)]
    · rw [Token.requoted_of_kind hkind]
  rw [word, List.filterMap_map]
  exact List.filterMap_congr fun token _ => hside token

/-- Tokens that are read as a program have brackets that pair up. -/
theorem Bracket.check_of_parse {tokens : List Token} {program : Program}
    (h : parse (tokens.map .ok) = .ok program) : Bracket.check tokens = .ok () := by
  obtain ⟨last, hreading⟩ := Statements.reading_of_parse h
  have hbalanced : Balanced (tokens.map Token.requoted) :=
    hreading.file.balanced Grammar.Statement.balanced
  rw [Balanced, word_map_requoted] at hbalanced
  exact (check_eq_ok_iff tokens).mpr hbalanced

/-- The statements of a text, read without a check of its brackets. -/
def Program.readUnchecked (source : String) : Except Stop Program := do
  let tokens ← Stop.ofError (tokens source)
  parse (tokens.map .ok)

/-- Compiles a text without a check of its brackets. -/
def compileUnchecked (source : String) (options : Options) : Report Stop Program :=
  options.finish (readUnchecked source)

/-- A text whose brackets are refused, and whose statements would be refused without a look at the
brackets. -/
structure RefusedTwice (source : String) (error other : Error) : Prop where
  read_eq : read source = .error (.error error)
  readUnchecked_eq : readUnchecked source = .error (.error other)
  unbalanced : ∃ tokens, Program.tokens source = .ok tokens ∧ Bracket.check tokens = .error error ∧
    parse (tokens.map .ok) = .error (.error other)

theorem Program.read_cases (source : String) :
    read source = readUnchecked source ∨ ∃ error other, RefusedTwice source error other := by
  rcases mapM_id_cases (tokenize source) with ⟨tokens, hitems, hok⟩ | ⟨error, -, herror⟩
  · have htokens : Program.tokens source = .ok tokens := hok
    have hread : read source =
        (do Stop.ofError (Bracket.check tokens); parse (tokens.map .ok)) := by
      rw [read, htokens]
      rfl
    have hunchecked : readUnchecked source = parse (tokens.map .ok) := by
      rw [readUnchecked, htokens]
      rfl
    cases hcheck : Bracket.check tokens with
    | ok =>
      rw [hread, hunchecked, hcheck]
      exact .inl rfl
    | error error =>
      -- tokens whose brackets do not pair up are no program, and those of a text lead to no fault
      have hlexed : Lexed (tokens.map .ok) := hitems ▸ lexed_tokenize source
      cases hparse : parse (tokens.map .ok) with
      | ok =>
        rw [Bracket.check_of_parse hparse] at hcheck
        cases hcheck
      | error stop =>
        cases stop with
        | fault fault => exact absurd hparse (parse_ne_fault hlexed fault)
        | error other =>
          refine .inr ⟨error, other, ?_, hunchecked.trans hparse, tokens, htokens, hcheck, hparse⟩
          rw [hread, hcheck]
          rfl
  · have htokens : Program.tokens source = .error error := herror
    rw [read, readUnchecked, htokens]
    exact .inl rfl

/-- **The check of brackets refuses no program.** Whatever tokens are read as a program, their
brackets pass the check. So a text is compiled if and only if it is compiled without the check, to
the same program and with the same warnings. Without the check there is the same report, or else the
text is refused both ways, without a warning, and only the error is another one. -/
theorem bracketCheck_refusesNoProgram :
    (∀ (tokens : List Token) (program : Program), parse (tokens.map .ok) = .ok program →
      Bracket.check tokens = .ok ()) ∧
    ∀ (source : String) (options : Options),
      (∀ nodes warnings, compile source options = ⟨.ok nodes, warnings⟩ ↔
        compileUnchecked source options = ⟨.ok nodes, warnings⟩) ∧
      (compile source options = compileUnchecked source options ∨
        ∃ error other, RefusedTwice source error other ∧
          compile source options = ⟨.error (.error error), []⟩ ∧
          compileUnchecked source options = ⟨.error (.error other), []⟩) := by
  refine ⟨fun tokens program => Bracket.check_of_parse, fun source options => ?_⟩
  rw [compile_eq_finish, compileUnchecked]
  rcases Program.read_cases source with hsame | ⟨error, other, hrefused⟩
  · rw [hsame]
    exact ⟨fun _ _ => Iff.rfl, .inl rfl⟩
  · rw [hrefused.read_eq, hrefused.readUnchecked_eq]
    refine ⟨fun nodes warnings => ?_, .inr ⟨error, other, hrefused, rfl, rfl⟩⟩
    simp [Options.finish]

/-- A condition with a block in it, as tokens that all stand at one place. -/
def nestedTokens : List Token :=
  [⟨.name, "if", default⟩, ⟨.name, "f", default⟩, ⟨.operator, "(", default⟩, ⟨.name, "g", default⟩,
    ⟨.operator, "(", default⟩, ⟨.operator, ")", default⟩, ⟨.operator, ",", default⟩,
    ⟨.operator, ")", default⟩, ⟨.operator, "\x7b", default⟩, ⟨.name, "h", default⟩,
    ⟨.operator, "(", default⟩, ⟨.operator, ")", default⟩, ⟨.operator, ";", default⟩,
    ⟨.operator, "\x7d", default⟩]

theorem bracketCheck_refusesNoProgram_nestedTokens :
    (parse (nestedTokens.map .ok)).isOk = true ∧ Bracket.check nestedTokens = .ok () := by
  have hparse : (parse (nestedTokens.map .ok)).isOk = true := by decide +kernel
  refine ⟨hparse, ?_⟩
  cases hprogram : parse (nestedTokens.map .ok) with
  | error =>
    rw [hprogram] at hparse
    cases hparse
  | ok program => exact bracketCheck_refusesNoProgram.1 nestedTokens program hprogram

end FrontEnd
