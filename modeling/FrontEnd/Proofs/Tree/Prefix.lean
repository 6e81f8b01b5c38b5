import FrontEnd.Proofs.Tree.Exact

/-!
# The correct-prefix property

Tokens are viable if they are the beginning of a file: some more tokens behind them, and all of them
are read. Reading is refused at the first token with which the tokens are no longer viable, and at
no other place; and where the tokens are viable to their end, there is nothing to report but that
end, behind the last of them. So there are exactly three ways to end (`parse_correctPrefix`).
-/

namespace FrontEnd

open Grammar List

variable {tokens more front : List Token} {token : Token}

/-- Tokens that are read as a program. -/
def Accepted (tokens : List Token) : Prop :=
  ∃ program, parse (tokens.map .ok) = .ok program

/-- Tokens that are the beginning of a program. -/
def Viable (tokens : List Token) : Prop :=
  ∃ more, Accepted (tokens ++ more)

/-- Tokens that end too early: they are the beginning of a program, and the error covers three
columns behind the last of them. -/
def EndsEarly (tokens : List Token) : Prop :=
  Viable tokens ∧ ∃ last stop, tokens.getLast? = some last ∧ last.location.stop = some stop ∧
    parse (tokens.map .ok) =
      .error (.error (Cause.unexpectedEndOfFile.located
        ⟨last.location.line, stop, some (stop + 3)⟩))

/-- A token that makes the tokens up to it the beginning of no program. -/
def Spoils (tokens : List Token) (index : Nat) : Prop :=
  Viable (tokens.take index) ∧ ¬ Viable (tokens.take (index + 1))

/-- The error is at the first token that spoils the program. -/
def RefusedAt (tokens : List Token) (index : Nat) : Prop :=
  (Spoils tokens index ∧ ∀ other, Spoils tokens other → index ≤ other) ∧
    ∃ token error, tokens[index]? = some token ∧ error.Blames (tokens.take index) token ∧
      parse (tokens.map .ok) = .error (.error error)

theorem Viable.of_append (h : Viable (tokens ++ more)) : Viable tokens := by
  obtain ⟨others, hothers⟩ := h
  exact ⟨more ++ others, by rwa [← append_assoc]⟩

/-- There is a line that is not before any of the tokens. -/
theorem exists_line_ge (tokens : List Token) :
    ∃ line, ∀ token ∈ tokens, token.location.line ≤ line := by
  induction tokens with
  | nil => exact ⟨0, by simp⟩
  | cons token tokens ih =>
    obtain ⟨line, hline⟩ := ih
    refine ⟨max token.location.line line, forall_mem_cons.mpr ⟨by omega, fun other hother => ?_⟩⟩
    have hle := hline other hother
    omega

/-- Tokens on one line fit behind tokens that are not behind that line. -/
theorem OnLine.lexed_append {line : Nat} (hmore : OnLine line more)
    (hline : ∀ token ∈ tokens, token.location.line ≤ line) (h : Lexed (tokens.map .ok)) :
    Lexed ((tokens ++ more).map .ok) where
  ordered := by
    rw [map_append, pairwise_append]
    refine ⟨h.ordered, ?_, ?_⟩
    · rw [pairwise_iff_forall_sublist]
      rintro first second hsublist a b rfl rfl
      have hfirst : Except.ok a ∈ more.map Except.ok := hsublist.subset mem_cons_self
      have hsecond : Except.ok b ∈ more.map Except.ok := hsublist.subset (by simp)
      have hfirst : a ∈ more := by simpa using hfirst
      have hsecond : b ∈ more := by simpa using hsecond
      rw [(hmore a hfirst).1, (hmore b hsecond).1]
    · rintro first hfirst second hsecond a b rfl rfl
      have hfirst : a ∈ tokens := by simpa using hfirst
      have hsecond : b ∈ more := by simpa using hsecond
      rw [(hmore b hsecond).1]
      exact hline a hfirst
  quoted := by
    intro token htoken hkind
    rw [map_append] at htoken
    rcases mem_append.mp htoken with htoken | htoken
    · exact h.quoted token htoken hkind
    · exact absurd hkind (hmore token (by simpa using htoken)).2
  genuine := by simp

theorem viable_of_canEnd (h : Lexed (tokens.map .ok)) (hend : CanEnd tokens File) :
    Viable tokens := by
  obtain ⟨line, hline⟩ := exists_line_ge tokens
  obtain ⟨more, program, hmore, hfile⟩ := hend line
  exact ⟨more, program, (parse_eq_ok_iff (hmore.lexed_append hline h) program).mpr hfile⟩

theorem not_viable_of_yields {stop : Stop}
    (h : ∀ behind : List Token, Statements.Yields (front ++ token :: behind) stop) :
    ¬ Viable (front ++ [token]) := by
  rintro ⟨more, program, hprogram⟩
  rw [append_assoc, singleton_append, (h more).parse_eq] at hprogram
  cases hprogram

/-- Where the tokens in front of one are viable and with it they are not, it is the first that
spoils them. -/
theorem spoils_of_viable {left : List Token} (hfront : Viable front)
    (hspoiled : ¬ Viable (front ++ [token])) :
    Spoils (front ++ token :: left) front.length ∧
      ∀ other, Spoils (front ++ token :: left) other → front.length ≤ other := by
  have htake : (front ++ token :: left).take (front.length + 1) = front ++ [token] := by
    rw [take_length_add_append]
    rfl
  refine ⟨⟨?_, ?_⟩, ?_⟩
  · rwa [take_left]
  · rwa [htake]
  · rintro other ⟨-, hother⟩
    -- up to a token in front of it, the tokens are a beginning of what is viable
    refine Nat.le_of_not_lt fun hlt => hother ?_
    rw [take_append_of_le_length hlt]
    rw [← take_append_drop (other + 1) front] at hfront
    exact hfront.of_append

/-- **Errors are reported at the first token that no program could have there.** Tokens are read; or
they end too early, and then they are the beginning of a program and the error stands behind the
last of them; or the error stands at the first token with which they are the beginning of no
program. No two of these hold. -/
theorem parse_correctPrefix {tokens : List Token} (h : Lexed (tokens.map .ok))
    (hstop : ∀ token ∈ tokens, token.location.stop.isSome = true) :
    (Accepted tokens ∨ EndsEarly tokens ∨ ∃ index, RefusedAt tokens index) ∧
      ¬ (Accepted tokens ∧ EndsEarly tokens) ∧
      ¬ (Accepted tokens ∧ ∃ index, RefusedAt tokens index) ∧
      ¬ (EndsEarly tokens ∧ ∃ index, RefusedAt tokens index) := by
  refine ⟨?_, ?_, ?_, ?_⟩
  · cases Statements.outcome (show Parse.Trusted True tokens from fun _ => h) with
    | reads program run =>
      obtain ⟨last, hreading⟩ := run (.ofItems (tokens.map .ok)) rfl
      exact .inl ⟨program, hreading.parse_eq⟩
    | ends last isLast canEnd yields =>
      rw [Parse.LexedTokens.map_requoted h] at canEnd
      obtain ⟨stop, hlast⟩ := Option.isSome_iff_exists.mp (hstop last (List.mem_of_getLast? isLast))
      refine .inr (.inl ⟨viable_of_canEnd h canEnd, last, stop, isLast, hlast, ?_⟩)
      rw [yields.parse_eq, Location.missingAfter, hlast]
      rfl
    | refuses front token left error split blames canEnd yields =>
      subst split
      have hfront : Lexed (front.map .ok) := by
        rw [List.map_append] at h
        exact h.of_append_left
      rw [Parse.LexedTokens.map_requoted hfront] at canEnd
      refine .inr (.inr ⟨front.length, ?_, token, error, by simp, ?_, (yields left).parse_eq⟩)
      · exact spoils_of_viable (viable_of_canEnd hfront canEnd) (not_viable_of_yields yields)
      · rwa [List.take_left]
    | faults fault allowed => exact absurd trivial allowed
  · rintro ⟨⟨program, hprogram⟩, -, last, stop, -, -, herror⟩
    rw [hprogram] at herror
    cases herror
  · rintro ⟨⟨program, hprogram⟩, index, -, token, error, -, -, herror⟩
    rw [hprogram] at herror
    cases herror
  · rintro ⟨⟨-, last, stop, -, -, hends⟩, index, -, token, error, -, hblames, herror⟩
    rw [hends] at herror
    obtain rfl := Stop.error.inj (Except.error.inj herror)
    have hgenuine := hblames.isEndOfFile_eq_false
    cases hgenuine

/-- The tokens of a call with two commas after each other, on two lines. -/
def doubledComma : List Token :=
  [⟨.name, "f", ⟨1, 0, some 1⟩⟩, ⟨.operator, "(", ⟨1, 1, some 2⟩⟩, ⟨.integer, "1", ⟨1, 2, some 3⟩⟩,
    ⟨.operator, ",", ⟨1, 3, some 4⟩⟩, ⟨.operator, ",", ⟨2, 0, some 1⟩⟩,
    ⟨.operator, ")", ⟨2, 1, some 2⟩⟩, ⟨.operator, ";", ⟨2, 2, some 3⟩⟩]

theorem parse_correctPrefix_doubledComma :
    Lexed (doubledComma.map .ok) ∧ (∀ token ∈ doubledComma, token.location.stop.isSome = true) ∧
      parse (doubledComma.map .ok) = .error (.error (Cause.doubleComma.located ⟨1, 3, none⟩)) ∧
      ∃ index, RefusedAt doubledComma index := by
  have hlexed : Lexed (doubledComma.map .ok) := by
    refine ⟨by simp [doubledComma], ?_, by simp [doubledComma]⟩
    simp [doubledComma]
  have hstop : ∀ token ∈ doubledComma, token.location.stop.isSome = true := by decide
  have hparse : parse (doubledComma.map .ok) =
      .error (.error (Cause.doubleComma.located ⟨1, 3, none⟩)) := by
    rfl
  refine ⟨hlexed, hstop, hparse, ?_⟩
  rcases (parse_correctPrefix hlexed hstop).1 with ⟨program, haccepted⟩
    | ⟨-, last, stop, -, -, hends⟩ | hrefused
  · rw [hparse] at haccepted
    cases haccepted
  · rw [hparse] at hends
    cases hends
  · exact hrefused

end FrontEnd
