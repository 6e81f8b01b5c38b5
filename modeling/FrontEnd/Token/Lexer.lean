import FrontEnd.Text.Tab
import FrontEnd.Token.Lexeme

/-!
# From text to tokens

A lexer reads a text from front to back. Each call of `Lexer.next` skips blanks and comments and
yields the next token, or the error that stands in its place. After an error a lexer yields nothing
more, and it has not moved past the faulty text.

`Lexer.items` lists everything that a lexer yields, and `tokenize` does so for a whole program.
-/

namespace FrontEnd

/-- A lexer: what it has still to read, and where that starts. -/
structure Lexer where
  /-- The text that has not been read, with spaces for tabs. -/
  rest : List Char
  position : Position := {}
  /-- Whether an error has been reported. -/
  stopped : Bool := false
deriving DecidableEq, Inhabited

namespace Lexer

/-- A lexer at the start of a program. -/
def ofSource (source : String) : Lexer :=
  { rest := Text.expandTabsFrom 0 source.toList }

/-- Whether everything has been read. -/
def atEnd (lexer : Lexer) : Bool :=
  lexer.rest.isEmpty

/-- The lexer behind a lexeme in front of `rest`. -/
def skip (lexer : Lexer) (lexeme : Lexeme) (rest : List Char) : Lexer :=
  { lexer with rest := rest, position := lexer.position.advance lexeme.text }

/-- The next item, or nothing at the end or after an error, and the lexer behind it. -/
def next (lexer : Lexer) : Option Item × Lexer :=
  if lexer.stopped then (none, lexer)
  else
    match _h : Lexeme.first? lexer.rest with
    | none => (none, lexer)
    | some (.blank text, rest) => (lexer.skip (.blank text) rest).next
    | some (.token kind text, rest) =>
      (some (.ok ⟨kind, String.ofList text, lexer.position.across text⟩),
        lexer.skip (.token kind text) rest)
    | some (.faulty cause text, _) =>
      (some (.error (cause.located (lexer.position.across text))), { lexer with stopped := true })
termination_by lexer.rest.length
decreasing_by exact Lexeme.length_lt_of_first?_eq_some _h

/-- What `next` does, one lexeme at a time. -/
theorem next_eq (lexer : Lexer) :
    lexer.next =
      if lexer.stopped then (none, lexer)
      else
        match Lexeme.first? lexer.rest with
        | none => (none, lexer)
        | some (.blank text, rest) => (lexer.skip (.blank text) rest).next
        | some (.token kind text, rest) =>
          (some (.ok ⟨kind, String.ofList text, lexer.position.across text⟩),
            lexer.skip (.token kind text) rest)
        | some (.faulty cause text, _) =>
          (some (.error (cause.located (lexer.position.across text))),
            { lexer with stopped := true }) := by
  rw [next]
  split
  · rfl
  · split <;> simp_all

/-- How much a lexer can still yield: nothing after an error, else at most an item for each
character that is left. -/
def budget (lexer : Lexer) : Nat :=
  if lexer.stopped then 0 else lexer.rest.length

/-- An item uses up some of what a lexer can still yield. -/
theorem budget_lt_of_next_eq_some {lexer lexer' : Lexer} {item : Item}
    (h : lexer.next = (some item, lexer')) : lexer'.budget < lexer.budget := by
  fun_induction next lexer with
  | case1 lexer hstopped => simp at h
  | case2 lexer hstopped hfirst => simp at h
  | case3 lexer hstopped text rest hfirst ih =>
    have hlt := Lexeme.length_lt_of_first?_eq_some hfirst
    have := ih h
    simp only [budget, skip, hstopped] at this ⊢
    simp only [Bool.false_eq_true, if_false] at this ⊢
    omega
  | case4 lexer hstopped kind text rest hfirst =>
    have hlt := Lexeme.length_lt_of_first?_eq_some hfirst
    cases h
    simpa [budget, skip, hstopped] using hlt
  | case5 lexer hstopped cause text rest hfirst =>
    have hlt := Lexeme.length_lt_of_first?_eq_some hfirst
    cases h
    simp only [budget, hstopped, Bool.false_eq_true, if_false, if_true]
    omega

/-- Everything that a lexer yields. -/
def items (lexer : Lexer) : List Item :=
  match _h : lexer.next with
  | (none, _) => []
  | (some item, rest) => item :: rest.items
termination_by lexer.budget
decreasing_by exact budget_lt_of_next_eq_some _h

/-- The items are the next one and those behind it. -/
theorem items_eq (lexer : Lexer) :
    lexer.items =
      match lexer.next with
      | (none, _) => []
      | (some item, rest) => item :: rest.items := by
  rw [items]
  split <;> simp_all

end Lexer

/-- The tokens of a program up to the first error, and that error. -/
def tokenize (source : String) : List Item :=
  (Lexer.ofSource source).items

end FrontEnd
