import FrontEnd.Proofs.Tree.Complete

/-!
# How reading ends

In front of tokens an action ends in one of three ways (`Verdict`). It takes tokens off the front
that the grammar derives its result from; or it runs out of tokens, and there are tokens that could
follow; or it refuses a token, and those in front of that one could have been followed by others.
What it looks at is no more than the tokens that it takes and the one behind them, and up to the one
that it refuses: whatever stands further behind, it ends in the same way.

This holds for any tokens, but for two things. Tokens that no text has may lead to a fault: where
two places are joined, the first one has to stand in front of the second. And the text of a string
is all but its first and last character, whatever they are, while the grammar has it between quotes
(`Token.requoted`).

Verdicts are put together along the steps of an action (`Verdict.lead`, `Verdict.bind`). That tokens
can be followed (`CanEnd`) is shown by the tokens themselves, which may stand on any line, so that
they fit behind whatever has been read.
-/

namespace FrontEnd

open Grammar List Token

variable {front tokens : List Token} {token : Token} {error : Error} {line : Nat}

/-- An error points at a token behind `front`: it stands there, or it covers two commas of which
that token is the second one. -/
inductive Error.Blames : List Token → Token → Error → Prop
  | token {front : List Token} {token : Token} {cause : Cause} (other : cause ≠ .doubleComma)
      (genuine : cause ≠ .unexpectedEndOfFile) : Blames front token (cause.located token.location)
  | commas {front : List Token} {comma token : Token} :
      Blames (front ++ [comma]) token
        (Cause.doubleComma.located (comma.location.span token.location))

theorem Error.Blames.append (taken : List Token) (h : error.Blames front token) :
    error.Blames (taken ++ front) token := by
  cases h with
  | token other genuine => exact .token other genuine
  | commas =>
    rw [← append_assoc]
    exact .commas

theorem Error.Blames.isEndOfFile_eq_false (h : error.Blames front token) :
    error.isEndOfFile = false := by
  cases h with
  | token other genuine =>
    rw [Bool.eq_false_iff]
    exact fun heq => genuine (by simpa [Error.isEndOfFile, Cause.located] using heq)
  | commas => rfl

/-- An error calls a token behind `front` a leading comma only where it is a comma directly behind a
parenthesis. -/
def Error.Leading (front : List Token) (token : Token) (error : Error) : Prop :=
  error.cause = .leadingComma →
    ∃ before opening, front = before ++ [opening] ∧ opening.isOperator "(" = true ∧
    token.isOperator "," = true

theorem Error.Leading.append (taken : List Token) (h : error.Leading front token) :
    error.Leading (taken ++ front) token := by
  intro hcause
  obtain ⟨before, opening, rfl, hopen⟩ := h hcause
  exact ⟨taken ++ before, opening, (append_assoc _ _ _).symm, hopen⟩

/-- Tokens on one line, none of which is a string. -/
def OnLine (line : Nat) (tokens : List Token) : Prop :=
  ∀ token ∈ tokens, token.location.line = line ∧ token.kind ≠ .string

namespace OnLine

variable {line : Nat} {tokens more : List Token} {token : Token}

theorem nil : OnLine line [] :=
  fun _ h => nomatch h

theorem cons (htoken : token.location.line = line ∧ token.kind ≠ .string) (h : OnLine line tokens) :
    OnLine line (token :: tokens) :=
  forall_mem_cons.mpr ⟨htoken, h⟩

theorem append (h : OnLine line tokens) (hmore : OnLine line more) : OnLine line (tokens ++ more) :=
  forall_mem_append.mpr ⟨h, hmore⟩

end OnLine

/-- An operator on a line. -/
def Token.operatorOn (line : Nat) (value : String) : Token :=
  ⟨.operator, value, ⟨line, 0, some 0⟩⟩

/-- A name on a line. -/
def Token.nameOn (line : Nat) : Token :=
  ⟨.name, "x", ⟨line, 0, some 0⟩⟩

theorem Token.isOperator_operatorOn (line : Nat) (value : String) :
    (operatorOn line value).isOperator value = true := by
  simp [operatorOn, isOperator, is]

theorem Token.isName_nameOn (line : Nat) : IsName (nameOn line) ⟨"x", ⟨line, 0, some 0⟩⟩ :=
  ⟨rfl, by simp [nameOn, reservedWords], rfl⟩

theorem OnLine.operator (value : String) (h : OnLine line tokens) :
    OnLine line (operatorOn line value :: tokens) :=
  h.cons ⟨rfl, by simp [operatorOn]⟩

theorem OnLine.name (h : OnLine line tokens) : OnLine line (nameOn line :: tokens) :=
  h.cons ⟨rfl, by simp [nameOn]⟩

/-- On any line there are tokens that can follow `front`, and with them there is a result. -/
def CanEnd {α : Type} (front : List Token) (post : List Token → α → Prop) : Prop :=
  ∀ line, ∃ more a, OnLine line more ∧ post (front ++ more) a

/-- The token as the grammar has it, with the text of a string between quotes. -/
def Token.requoted (token : Token) : Token :=
  { token with value :=
      if token.kind = .string then
        String.ofList ('"' :: (((Parse.unquote? token.value).getD "").toList ++ ['"']))
      else token.value }

theorem Token.requoted_of_kind (h : token.kind ≠ .string) : token.requoted = token := by
  rw [requoted, if_neg h]

theorem Token.requoted_of_is {kind : Kind} {value : String} (h : token.is kind value = true)
    (hkind : kind ≠ .string) :
    token.requoted = token :=
  requoted_of_kind (by rwa [(is_eq_true_iff.mp h).1])

namespace Parse

variable {α β : Type} {faultless : Prop} {tokens left behind : List Token} {token : Token}

/-- The strings of a text are between quotes already. -/
theorem LexedTokens.map_requoted (h : LexedTokens tokens) : tokens.map requoted = tokens := by
  refine (map_congr_left fun token htoken => ?_).trans (map_id' tokens)
  by_cases hkind : token.kind = .string
  · obtain ⟨inner, hinner⟩ := h.quoted token (mem_map_of_mem htoken) hkind
    rw [requoted, if_pos hkind, unquote?_of_quoted hinner, Option.getD_some,
      String.toList_ofList, ← hinner, String.ofList_toList]
  · exact requoted_of_kind hkind

/-- Tokens that come from a text, if there are to be no faults. -/
def Trusted (faultless : Prop) (tokens : List Token) : Prop :=
  faultless → LexedTokens tokens

namespace Trusted

theorem of_append {taken : List Token} (h : Trusted faultless (taken ++ left)) :
    Trusted faultless left :=
  fun hfaultless => (h hfaultless).of_append

theorem of_cons (h : Trusted faultless (token :: left)) : Trusted faultless left :=
  fun hfaultless => (h hfaultless).of_cons

theorem line_le (h : Trusted faultless (token :: left)) {other : Token} (hother : other ∈ left)
    (hfaultless : faultless) : token.location.line ≤ other.location.line :=
  (h hfaultless).line_le hother

end Trusted

/-- How an action ends in front of tokens, where `post` says what there is to be derived. -/
inductive Verdict (faultless : Prop) (tokens : List Token) (action : Parse α)
    (post : List Token → α → Prop) : Prop
  | takes (taken left : List Token) (a : α) (split : tokens = taken ++ left)
      (fits : post (taken.map requoted) a)
      (run : ∀ behind, behind.head? = left.head? → Steps (taken ++ behind) action a behind)
  | exhausts (run : Ends tokens action) (canEnd : CanEnd (tokens.map requoted) post)
  | refuses (front : List Token) (token : Token) (left : List Token) (error : Error)
      (split : tokens = front ++ token :: left) (blames : error.Blames front token)
      (run : ∀ behind : List Token, Fails (front ++ token :: behind) action (.error error))
      (canEnd : CanEnd (front.map requoted) post) (leading : error.Leading front token)
  | faults (fault : Fault) (allowed : ¬ faultless) (run : Fails tokens action (.fault fault))

theorem head?_append_of_eq {front : List Token} (h : behind.head? = left.head?) :
    (front ++ behind).head? = (front ++ left).head? := by
  rw [head?_append, head?_append, h]

/-! ### Rules for verdicts -/

namespace Verdict

variable {action rest : Parse α} {next : α → Parse β} {post : List Token → α → Prop}
  {kind : Token.Kind} {value : String}

protected theorem pure {a : α} (h : post [] a) : Verdict faultless tokens (pure a) post :=
  .takes [] tokens a rfl h fun _ _ => .pure a

/-- A step of which the result is known, in front of another action. -/
theorem lead (taken : List Token)
    (h : ∀ behind, behind.head? = left.head? → Leads (taken ++ behind) action rest behind)
    (hrest : Verdict faultless left rest fun more a => post (taken.map requoted ++ more) a) :
    Verdict faultless (taken ++ left) action post := by
  have hfollow {more : List Token}
      (hmore : CanEnd (more.map requoted) fun more a => post (taken.map requoted ++ more) a) :
      CanEnd ((taken ++ more).map requoted) post := by
    intro line
    obtain ⟨others, a, hothers, ha⟩ := hmore line
    exact ⟨others, a, hothers, by rwa [map_append, append_assoc]⟩
  cases hrest with
  | takes more left a split fits run =>
    subst split
    refine .takes (taken ++ more) left a (append_assoc _ _ _).symm (by rwa [map_append])
      fun behind hbehind => ?_
    rw [append_assoc]
    exact (h _ (head?_append_of_eq hbehind)).steps (run behind hbehind)
  | exhausts run canEnd => exact .exhausts ((h left rfl).ends run) (hfollow canEnd)
  | refuses front token behind error split blames run canEnd leading =>
    subst split
    refine .refuses (taken ++ front) token behind error (append_assoc _ _ _).symm
      (blames.append taken) (fun other => ?_) (hfollow canEnd) (leading.append taken)
    rw [append_assoc]
    exact (h (front ++ token :: other) (head?_append_of_eq rfl)).fails (run other)
  | faults fault allowed run => exact .faults fault allowed ((h left rfl).fails run)

/-- Two actions one after the other. Behind the first one there has to be an end for the second. -/
protected theorem bind {post' : List Token → β → Prop} (h : Verdict faultless tokens action post)
    (hnext : ∀ taken a left, tokens = taken ++ left → post (taken.map requoted) a →
      Verdict faultless left (next a) fun more b => post' (taken.map requoted ++ more) b)
    (hend : ∀ taken a, post taken a → CanEnd taken post') :
    Verdict faultless tokens (action >>= next) post' := by
  have hfollow {front : List Token} (hfront : CanEnd front post) : CanEnd front post' := by
    intro line
    obtain ⟨more, a, hmore, ha⟩ := hfront line
    obtain ⟨others, b, hothers, hb⟩ := hend _ a ha line
    exact ⟨more ++ others, b, hmore.append hothers, by rwa [← append_assoc]⟩
  cases h with
  | takes taken left a split fits run =>
    subst split
    exact lead taken (fun behind hbehind => (run behind hbehind).leads)
      (hnext taken a left rfl fits)
  | exhausts run canEnd => exact .exhausts run.bind (hfollow canEnd)
  | refuses front token left error split blames run canEnd leading =>
    exact .refuses front token left error split blames (fun behind => (run behind).bind)
      (hfollow canEnd) leading
  | faults fault allowed run => exact .faults fault allowed run.bind

protected theorem mono {post' : List Token → α → Prop} (h : Verdict faultless tokens action post)
    (hpost : ∀ taken a, post taken a → post' taken a) : Verdict faultless tokens action post' := by
  have hfollow {front : List Token} (hfront : CanEnd front post) : CanEnd front post' := by
    intro line
    obtain ⟨more, a, hmore, ha⟩ := hfront line
    exact ⟨more, a, hmore, hpost _ a ha⟩
  cases h with
  | takes taken left a split fits run => exact .takes taken left a split (hpost _ a fits) run
  | exhausts run canEnd => exact .exhausts run (hfollow canEnd)
  | refuses front token left error split blames run canEnd leading =>
    exact .refuses front token left error split blames run (hfollow canEnd) leading
  | faults fault allowed run => exact .faults fault allowed run

/-- The first token is refused. -/
theorem refuse (cause : Cause)
    (hplain : cause ∉ [.doubleComma, .leadingComma, .unexpectedEndOfFile]) (hend : CanEnd [] post)
    (run : ∀ behind : List Token,
      Fails (token :: behind) action (.error (cause.located token.location))) :
    Verdict faultless (token :: left) action post := by
  simp only [mem_cons, not_mem_nil, or_false, not_or] at hplain
  obtain ⟨hother, hleading, hgenuine⟩ := hplain
  exact .refuses [] token left _ rfl (.token hother hgenuine) run hend fun hcause =>
    absurd hcause hleading

/-- A step that takes nothing and whose result is known. -/
theorem step {action : Parse β} {next : β → Parse α} {b : β}
    (h : ∀ behind, behind.head? = tokens.head? → Steps behind action b behind)
    (hnext : Verdict faultless tokens (next b) post) :
    Verdict faultless tokens (action >>= next) post :=
  lead [] (fun behind hbehind => (h behind hbehind).leads) hnext

/-- Joining two places, of which the first is not below the second if there are to be no faults. -/
theorem span_bind {first last : Location} {next : Location → Parse α}
    (hline : faultless → first.line ≤ last.line)
    (hnext : Verdict faultless tokens (next (first.span last)) post) :
    Verdict faultless tokens (span first last >>= next) post := by
  by_cases hle : first.line ≤ last.line
  · exact step (fun _ _ => steps_span hle) hnext
  · exact .faults .backwardSpan (fun hfaultless => hle (hline hfaultless)) (fails_span hle).bind

/-- Looking at the next token. -/
theorem comingUp_bind {next : Token → Parse α} (hend : CanEnd [] post)
    (hnext : ∀ token left, tokens = token :: left → Verdict faultless tokens (next token) post) :
    Verdict faultless tokens (comingUp 1 >>= next) post := by
  cases tokens with
  | nil => exact .exhausts ends_comingUp.bind hend
  | cons token left =>
    refine step (fun behind hbehind => ?_) (hnext token left rfl)
    obtain ⟨more, rfl⟩ := head?_eq_some_iff.mp hbehind
    exact steps_comingUp

/-- Taking a token that is known. -/
theorem pop_bind {next : Token → Parse α}
    (hnext : Verdict faultless left (next token) fun more a => post (token.requoted :: more) a) :
    Verdict faultless (token :: left) (pop >>= next) post :=
  lead [token] (fun _ _ => steps_pop.leads) hnext

/-- Taking a token that has been looked at, and is no string. -/
theorem popIs_bind {next : Token → Parse α} (h : token.is kind value = true)
    (hnext : Verdict faultless left (next token) fun more a => post (token :: more) a)
    (hkind : kind ≠ .string := by decide) :
    Verdict faultless (token :: left) (pop >>= next) post := by
  refine pop_bind ?_
  rw [requoted_of_is h hkind]
  exact hnext

/-- Taking a token that has to be of a kind, and possibly one with a text. -/
theorem expect_bind {next : Token → Parse α} {value : Option String} (hstring : kind ≠ .string)
    (hend : CanEnd [] post) (hnext : ∀ token left, tokens = token :: left → token.kind = kind →
      (∀ text ∈ value, token.value = text) → Verdict faultless left (next token) fun more a =>
      post (token :: more) a) :
    Verdict faultless tokens (expect kind value >>= next) post := by
  cases tokens with
  | nil => exact .exhausts ends_comingUp.bind.bind hend
  | cons token left =>
    by_cases hvalue : ∀ text ∈ value, token.value = text
    · by_cases hkind : token.kind = kind
      · refine lead [token] (fun _ _ => (steps_expect hkind hvalue).leads) ?_
        rw [map_singleton, requoted_of_kind (hkind ▸ hstring)]
        exact hnext token left rfl hkind hvalue
      · exact refuse _ (by simp) hend fun behind => (fails_expect_kind hkind hvalue).bind
    · obtain ⟨text, rfl, htext⟩ : ∃ text, value = some text ∧ token.value ≠ text := by
        simpa using hvalue
      exact refuse _ (by simp) hend fun behind => (fails_expect_value htext).bind

theorem expectOperator_bind {next : Token → Parse α} (hend : CanEnd [] post)
    (hnext : ∀ token left, tokens = token :: left → token.isOperator value = true →
      Verdict faultless left (next token) fun more a => post (token :: more) a) :
    Verdict faultless tokens (expectOperator value >>= next) post :=
  expect_bind (by decide) hend fun token left heq hkind hvalue =>
    hnext token left heq (is_eq_true_iff.mpr ⟨hkind, hvalue value rfl⟩)

theorem expectWord_bind {next : Token → Parse α} (hend : CanEnd [] post)
    (hnext : ∀ token left, tokens = token :: left → token.is .name value = true →
      Verdict faultless left (next token) fun more a => post (token :: more) a) :
    Verdict faultless tokens (expectWord value >>= next) post :=
  expect_bind (by decide) hend fun token left heq hkind hvalue =>
    hnext token left heq (is_eq_true_iff.mpr ⟨hkind, hvalue value rfl⟩)

/-- Taking a word that can name something. -/
theorem name_bind {next : Name → Parse α} (hend : CanEnd [] post)
    (hnext : ∀ token name left, tokens = token :: left → IsName token name →
      Verdict faultless left (next name) fun more a => post (token :: more) a) :
    Verdict faultless tokens (Parse.name >>= next) post := by
  cases tokens with
  | nil => exact .exhausts ends_comingUp.bind.bind.bind hend
  | cons token left =>
    by_cases hkind : token.kind = .name
    · by_cases hreserved : token.isReserved = true
      · exact refuse _ (by simp) hend fun behind => (fails_name hreserved).bind
      · have hname : IsName token ⟨token.value, token.location⟩ := by
          refine ⟨hkind, ?_, rfl⟩
          simpa [isReserved, hkind] using hreserved
        refine lead [token] (fun _ _ => (steps_name hname).leads) ?_
        rw [map_singleton, requoted_of_kind (by rw [hkind]; decide)]
        exact hnext token _ left rfl hname
    · have hany : ∀ text ∈ (none : Option String), token.value = text := fun text htext => by
        cases htext
      exact refuse _ (by simp) hend fun behind => (fails_expect_kind hkind hany).bind.bind

end Verdict

end Parse

end FrontEnd
