import FrontEnd.Proofs.Token.Partition

/-!
# Streams of tokens

What readers of tokens may rely on (`Lexed`): tokens come line by line, strings stand between
quotes, and no error in the stream looks like its end. Lexing keeps that promise (`lexed_tokenize`).

A lexer goes on for as long as there is text. With a bound on the number of lexemes it can be run by
evaluation alone (`Lexer.itemsWithin`).
-/

namespace FrontEnd

/-- Items as a lexer yields them. -/
structure Lexed (items : List Item) : Prop where
  /-- No token stands on a line before that of an earlier one. -/
  ordered : items.Pairwise fun first second =>
    ∀ a b, first = .ok a → second = .ok b → a.location.line ≤ b.location.line
  quoted : ∀ token, Except.ok token ∈ items → token.kind = .string →
    ∃ inner, token.value.toList = '"' :: (inner ++ ['"'])
  /-- An end of file is found by those who read, and not part of the stream. -/
  genuine : ∀ error, Except.error error ∈ items → error.isEndOfFile = false

namespace Lexed

variable {front left : List Item} {token : Token}

/-- What is left of a stream is a stream. -/
theorem of_append (h : Lexed (front ++ left)) : Lexed left where
  ordered := (List.pairwise_append.mp h.ordered).2.1
  quoted := fun token htoken => h.quoted token (List.mem_append_right _ htoken)
  genuine := fun error herror => h.genuine error (List.mem_append_right _ herror)

theorem of_append_left (h : Lexed (front ++ left)) : Lexed front where
  ordered := (List.pairwise_append.mp h.ordered).1
  quoted := fun token htoken => h.quoted token (List.mem_append_left _ htoken)
  genuine := fun error herror => h.genuine error (List.mem_append_left _ herror)

theorem of_cons {item : Item} (h : Lexed (item :: left)) : Lexed left :=
  of_append (show Lexed ([item] ++ left) from h)

/-- No token is on a line before the first one. -/
theorem line_le (h : Lexed (.ok token :: left)) {other : Token} (hother : Except.ok other ∈ left) :
    token.location.line ≤ other.location.line :=
  (List.pairwise_cons.mp h.ordered).1 _ hother token other rfl rfl

end Lexed

theorem Location.Precedes.line_le {first second : Location} (h : first.Precedes second) :
    first.line ≤ second.line := by
  rcases h with hlt | ⟨heq, -⟩
  · exact Nat.le_of_lt hlt
  · exact Nat.le_of_eq heq

theorem Offends.isEndOfFile_eq_false {cause : Cause} {bad : List Char} (h : Offends cause bad)
    (location : Option Location) : (Error.mk cause location).isEndOfFile = false := by
  cases h <;> rfl

/-- **A program gives a stream that readers can rely on.** -/
theorem lexed_tokenize (source : String) : Lexed (tokenize source) := by
  obtain ⟨pieces, hcut⟩ := cut_tokenize source
  refine ⟨?_, ?_, ?_⟩
  · refine hcut.pairwise_precedes.imp ?_
    rintro first second ⟨a, ha, b, hb, hprecedes⟩ token other rfl rfl
    obtain rfl := Option.some.inj ha
    obtain rfl := Option.some.inj hb
    exact hprecedes.line_le
  · intro token htoken hkind
    obtain ⟨between, stretch, behind, -, -, -, -, rfl, hspells⟩ := hcut.marks_of_mem htoken
    rw [hkind] at hspells
    obtain ⟨inner, hinner, -⟩ := hspells
    exact ⟨inner, hinner⟩
  · intro error herror
    obtain ⟨between, stretch, behind, -, -, -, -, hoffends⟩ := hcut.marks_of_mem herror
    exact hoffends.isEndOfFile_eq_false error.location

/-! ### Lexing with a bound -/

namespace Lexer

/-- What a lexer yields of the first lexemes. -/
def itemsWithin : Nat → Lexer → List Item
  | 0, _ => []
  | bound + 1, lexer =>
    if lexer.stopped then []
    else
      match Lexeme.first? lexer.rest with
      | none => []
      | some (.blank text, rest) => (lexer.skip (.blank text) rest).itemsWithin bound
      | some (.token kind text, rest) =>
        .ok ⟨kind, String.ofList text, lexer.position.across text⟩ ::
          (lexer.skip (.token kind text) rest).itemsWithin bound
      | some (.faulty cause text, _) => [.error (cause.located (lexer.position.across text))]

/-- There are at most as many lexemes as characters. -/
theorem itemsWithin_eq {bound : Nat} {lexer : Lexer} (h : lexer.rest.length ≤ bound) :
    lexer.itemsWithin bound = lexer.items := by
  induction bound generalizing lexer with
  | zero => exact (items_of_end (List.length_eq_zero_iff.mp (Nat.le_zero.mp h))).symm
  | succ bound ih =>
    rw [itemsWithin]
    cases hstopped : lexer.stopped with
    | true => exact (items_of_stopped hstopped).symm
    | false =>
      rw [if_neg Bool.false_ne_true]
      have hless {lexeme : Lexeme} {rest : List Char}
          (hfirst : Lexeme.first? lexer.rest = some (lexeme, rest)) : rest.length ≤ bound := by
        have hlt := Lexeme.length_lt_of_first?_eq_some hfirst
        omega
      split
      · next hfirst => exact (items_of_end (Lexeme.first?_eq_none_iff.mp hfirst)).symm
      · next text rest hfirst =>
        rw [items_of_blank hstopped hfirst]
        exact ih (hless hfirst)
      · next kind text rest hfirst =>
        rw [items_of_token hstopped hfirst]
        exact congrArg _ (ih (hless hfirst))
      · next cause text rest hfirst => exact (items_of_faulty hstopped hfirst).symm

end Lexer

end FrontEnd
