import FrontEnd.Proofs.Tree.Exact

/-!
# Lists with commas

What a list of arguments is read as, and what is wrong with one that is not read. A list is told by
its elements, and an element by its tokens: tokens that reading an expression takes, all of them, in
front of a comma or the end of a list (`Segment`).

* Elements with single commas between them are read, and one comma may stand behind the last.
  Reading such a list comes down to reading on behind its last element (`leads_parts_segment`).
* An error is reported at the token that cannot stand there, which is a comma behind the opening
  parenthesis, a comma behind a comma, or anything behind an element that neither ends it nor goes
  on with it.

The first of these is reported nowhere else: a verdict says which token is refused and how, and it
speaks of a leading comma only behind a parenthesis (`Error.Leading`).
-/

namespace FrontEnd

open Grammar List

namespace Parse

variable {α β : Type} {tokens left : List Token} {token comma close opening : Token}
  {again : List α → Parse (List α × Token)} {found : List α}

/-! ### Lists that are read, and lists that are not -/

/-- Tokens that reading an expression takes in front of a comma or the end of a list. -/
structure Segment where
  tokens : List Token
  value : Expr
  reads : ∃ follow left, (follow.isOperator "," = true ∨ follow.isOperator ")" = true) ∧
    Steps (tokens ++ follow :: left) expression value (follow :: left)

/-- An element with a comma behind it. -/
structure Part extends Segment where
  comma : Token
  isComma : comma.isOperator "," = true

/-- The tokens of an element and its comma. -/
def Part.text (part : Part) : List Token :=
  part.tokens ++ [part.comma]

/-- In a text, tokens that are read as an expression are one. -/
theorem Segment.derives (segment : Segment) (h : LexedTokens (segment.tokens ++ left)) :
    Expression segment.tokens segment.value := by
  obtain ⟨follow, rest, -, hsteps⟩ := segment.reads
  generalize htokens : segment.tokens ++ follow :: rest = tokens at hsteps
  have hpending : (Cursor.ofItems (tokens.map .ok)).pending = tokens.map .ok := rfl
  generalize Cursor.ofItems (tokens.map .ok) = cursor at hpending
  obtain ⟨after, hrun, hafter⟩ := hsteps cursor hpending
  -- reading ends in one way only
  cases verdict_expression (show Trusted False tokens from False.elim) with
  | takes taken behind value split fits run =>
    subst split
    obtain ⟨last, hother, hlast⟩ := run behind rfl cursor hpending
    cases hrun.symm.trans hother
    obtain rfl : follow :: rest = behind :=
      (map_inj_right fun _ _ h => Except.ok.inj h).mp (hafter.symm.trans hlast)
    obtain rfl : segment.tokens = taken := append_cancel_right htokens
    have hquoted := h.map_requoted
    rw [map_append] at hquoted
    rwa [(append_inj hquoted (length_map _)).1] at fits
  | exhausts run =>
    obtain ⟨last, hother, -⟩ := run cursor hpending
    cases hrun.symm.trans hother
  | refuses front token behind error split blames run =>
    obtain ⟨last, hother⟩ := run behind cursor (split ▸ hpending)
    cases hrun.symm.trans hother
  | faults fault allowed run =>
    obtain ⟨last, hother⟩ := run cursor hpending
    cases hrun.symm.trans hother

theorem fails_listTail_comma {second : Token}
    (hcomma : comma.isOperator "," = true) (hsecond : second.isOperator "," = true)
    (hline : comma.location.line ≤ second.location.line) :
    Fails (comma :: second :: left) (listTail ")" again found)
      (.error (Cause.doubleComma.located (comma.location.span second.location))) := by
  refine steps_comingUp.leads.fails ?_
  rw [Token.isOperator_eq_false hcomma (show "," ≠ ")" by decide), if_neg Bool.false_ne_true]
  refine (steps_expectOperator hcomma).leads.fails (steps_comingUp.leads.fails ?_)
  dsimp only
  rw [if_pos hsecond]
  exact (steps_span hline).leads.fails fun cursor _ => ⟨cursor, rfl⟩

theorem fails_listTail_value (hvalue : token.value ≠ ",")
    (hclose : token.isOperator ")" = false) : Fails (token :: left) (listTail ")" again found)
      (.error ((Cause.expectedValue ",").located token.location)) := by
  refine steps_comingUp.leads.fails ?_
  rw [hclose, if_neg Bool.false_ne_true]
  exact (fails_expect_value hvalue).bind

/-- An element, and then what is behind it. -/
theorem Segment.leads (segment : Segment) (hlexed : LexedTokens (segment.tokens ++ token :: left))
    (hstop : token.isOperator "(" = false) (before : List Expr) :
    Leads (segment.tokens ++ token :: left) (elementsFrom ")" expression before)
      (listTail ")" (elementsFrom ")" expression) (before ++ [segment.value])) (token :: left) :=
  leads_elementsFrom composed_expression.some
    (fun h => h.start.imp fun _ => Exists.imp fun _ h => ⟨h.1, h.2.1⟩)
    (fun h hlexed hother => steps_expression h hlexed (.cons hother)) (segment.derives hlexed)
    hlexed hstop before

/-- Elements start with no operator. -/
theorem start_parts (parts : List Part) (htoken : token.kind ≠ .operator)
    (hlexed : LexedTokens (parts.flatMap Part.text ++ token :: left)) : ∃ first rest,
      parts.flatMap Part.text ++ token :: left = first :: rest ∧ first.kind ≠ .operator := by
  cases parts with
  | nil => exact ⟨token, left, rfl, htoken⟩
  | cons part =>
    simp only [flatMap_cons, Part.text, append_assoc] at hlexed ⊢
    obtain ⟨first, rest, heq, hfirst, -⟩ := (part.derives hlexed).start
    exact ⟨first, _, by rw [heq, cons_append], hfirst⟩

/-- Elements with commas behind them, up to another element. -/
theorem leads_parts (parts : List Part) (htoken : token.kind ≠ .operator)
    (hlexed : LexedTokens (parts.flatMap Part.text ++ token :: left)) (before : List Expr) :
    Leads (parts.flatMap Part.text ++ token :: left) (elementsFrom ")" expression before)
      (elementsFrom ")" expression (before ++ parts.map (·.value))) (token :: left) := by
  induction parts generalizing before with
  | nil =>
    rw [map_nil, append_nil]
    exact fun cursor hcursor => ⟨cursor, rfl, hcursor⟩
  | cons part parts ih =>
    have hsplit : (part :: parts).flatMap Part.text ++ token :: left =
        part.tokens ++ part.comma :: (parts.flatMap Part.text ++ token :: left) := by
      simp [Part.text]
    rw [hsplit] at hlexed ⊢
    have hrest := hlexed.of_append.of_cons
    have hmore := ih hrest (before ++ [part.value])
    obtain ⟨first, rest, heq, hfirst⟩ := start_parts parts htoken hrest
    rw [append_assoc, heq] at hmore
    rw [heq] at hlexed ⊢
    refine (part.leads hlexed (Token.isOperator_eq_false part.isComma (by decide)) before).trans ?_
    exact (leads_listTail part.isComma hfirst).trans hmore

/-- The same up to an element and what is behind it. -/
theorem leads_parts_segment (parts : List Part) (last : Segment)
    (hopen : opening.isOperator "(" = true)
    (hlexed : LexedTokens (opening :: (parts.flatMap Part.text ++ (last.tokens ++ token :: left))))
    (hstop : token.isOperator "(" = false) :
    Leads (opening :: (parts.flatMap Part.text ++ (last.tokens ++ token :: left))) argumentList
      (listTail ")" (elementsFrom ")" expression) (parts.map (·.value) ++ [last.value]))
      (token :: left) := by
  have hlast := last.leads hlexed.of_cons.of_append hstop (parts.map (·.value))
  obtain ⟨first, rest, heq, hfirst, -⟩ := (last.derives hlexed.of_cons.of_append).start
  rw [heq, cons_append] at hlexed hlast ⊢
  have hparts := leads_parts parts hfirst hlexed.of_cons []
  obtain ⟨next, more, hnext, hkind⟩ := start_parts parts hfirst hlexed.of_cons
  rw [hnext] at hparts ⊢
  refine (steps_expectOperator hopen).leads.trans (steps_comingUp.leads.trans ?_)
  rw [Token.isOperator_eq_false_of_kind hkind, if_neg Bool.false_ne_true]
  exact hparts.trans hlast

end Parse

/-! ### Where a leading comma is reported -/

variable {token : Token} {error : Error} {tokens : List Token}

/-- An error about a comma directly behind a parenthesis. -/
abbrev Error.BehindParenthesis (error : Error) (tokens : List Token) : Prop :=
  ∃ front opening comma behind, tokens = front ++ opening :: comma :: behind ∧
    opening.isOperator "(" = true ∧ comma.isOperator "," = true ∧
    error = Cause.leadingComma.located comma.location

theorem Error.Blames.leadingComma {front left : List Token} (h : error.Blames front token)
    (hleading : error.Leading front token) (hcause : error.cause = .leadingComma) :
    error.BehindParenthesis (front ++ token :: left) := by
  obtain ⟨before, opening, rfl, hopen, hcomma⟩ := hleading hcause
  refine ⟨before, opening, token, left, by simp, hopen, hcomma, ?_⟩
  generalize before ++ [opening] = front at h
  cases h with
  | token =>
    cases hcause
    rfl
  | commas => cases hcause

theorem Parse.leadingComma_of_argumentList {after : Cursor}
    (h : argumentList (.ofItems (tokens.map .ok)) = .error (.error error) after)
    (hcause : error.cause = .leadingComma) :
    error.BehindParenthesis tokens := by
  have hpending : (Cursor.ofItems (tokens.map .ok)).pending = tokens.map .ok := rfl
  generalize Cursor.ofItems (tokens.map .ok) = cursor at h hpending
  cases verdict_commaList (fun tokens _ => verdict_expression) composed_expression.some
      canEnd_expression (Nat.le_succ tokens.length) (show Trusted False tokens from False.elim) with
  | takes taken left a split fits run =>
    subst split
    obtain ⟨last, hrun, -⟩ := run left rfl cursor hpending
    cases h.symm.trans hrun
  | exhausts run =>
    obtain ⟨last, hrun, -⟩ := run cursor hpending
    cases h.symm.trans hrun
    cases hcause
  | refuses front token left error split blames run canEnd leading =>
    subst split
    obtain ⟨last, hrun⟩ := run left cursor hpending
    cases h.symm.trans hrun
    exact blames.leadingComma leading hcause
  | faults fault allowed run =>
    obtain ⟨last, hrun⟩ := run cursor hpending
    cases h.symm.trans hrun

theorem leadingComma_of_parse (h : parse (tokens.map .ok) = .error (.error error))
    (hcause : error.cause = .leadingComma) : error.BehindParenthesis tokens := by
  cases Statements.outcome (show Parse.Trusted False tokens from False.elim) with
  | reads program run =>
    obtain ⟨last, hreading⟩ := run (.ofItems (tokens.map .ok)) rfl
    cases h.symm.trans hreading.parse_eq
  | ends last isLast canEnd yields =>
    cases h.symm.trans yields.parse_eq
    cases hcause
  | refuses front token left error split blames canEnd yields leading =>
    subst split
    cases h.symm.trans (yields left).parse_eq
    exact blames.leadingComma leading hcause
  | faults fault allowed yields => cases h.symm.trans yields.parse_eq

/-- A comma in a text is an operator. -/
theorem kind_of_tokenize {source : String} (h : Except.ok token ∈ tokenize source)
    (hvalue : token.value = ",") : token.kind = .operator := by
  obtain ⟨pieces, hcut⟩ := cut_tokenize source
  obtain ⟨between, stretch, behind, -, -, -, -, rfl, hspells⟩ := hcut.marks_of_mem h
  rw [hvalue] at hspells
  cases hkind : token.kind with
  | operator => rfl
  | name =>
    rw [hkind] at hspells
    obtain ⟨first, more, heq, hfirst, -⟩ := hspells
    cases heq
    exact absurd hfirst (by decide)
  | integer =>
    rw [hkind] at hspells
    exact absurd (hspells.2 ',' (by decide)) (by decide)
  | string =>
    rw [hkind] at hspells
    obtain ⟨inner, heq, -⟩ := hspells
    cases heq

open Parse in
/-- **Lists of arguments.** Elements with single commas between them are read in their order up to
the closing parenthesis, and one comma may stand behind the last of them. A comma behind the opening
parenthesis, two commas behind an element, and any other token behind an element are errors at those
very tokens. The fifth part asks that what is written as a comma is one, which holds in every text;
the last part says that the first of the errors is reported nowhere but behind an opening
parenthesis, whatever program or list is read. -/
theorem commaList_outcomes {opening : Token} (hopen : opening.isOperator "(" = true)
    (parts : List Part) (left : List Token) :
    (∀ close, close.isOperator ")" = true →
      LexedTokens (opening :: (parts.flatMap Part.text ++ close :: left)) →
      Steps (opening :: (parts.flatMap Part.text ++ close :: left)) (commaList "(" ")" expression)
        (parts.map (·.value), close) left) ∧
    (∀ (last : Segment) (close : Token), close.isOperator ")" = true →
      LexedTokens (opening :: (parts.flatMap Part.text ++ (last.tokens ++ close :: left))) →
      Steps (opening :: (parts.flatMap Part.text ++ (last.tokens ++ close :: left)))
        (commaList "(" ")" expression) (parts.map (·.value) ++ [last.value], close) left) ∧
    (∀ comma, comma.isOperator "," = true →
      Fails (opening :: comma :: left) (commaList "(" ")" expression)
        (.error (Cause.leadingComma.located comma.location))) ∧
    (∀ (last : Part) (comma : Token), comma.isOperator "," = true →
      LexedTokens (opening :: (parts.flatMap Part.text ++ (last.text ++ comma :: left))) →
      Fails (opening :: (parts.flatMap Part.text ++ (last.text ++ comma :: left)))
        (commaList "(" ")" expression)
        (.error (Cause.doubleComma.located (last.comma.location.span comma.location)))) ∧
    (∀ (last : Segment) (token : Token),
      token.isOperator "," = false → token.isOperator ")" = false →
      token.isOperator "(" = false → (token.value = "," → token.kind = .operator) →
      LexedTokens (opening :: (parts.flatMap Part.text ++ (last.tokens ++ token :: left))) →
      Fails (opening :: (parts.flatMap Part.text ++ (last.tokens ++ token :: left)))
        (commaList "(" ")" expression)
        (.error ((Cause.expectedValue ",").located token.location))) ∧
    (∀ source token, Except.ok token ∈ tokenize source → token.value = "," →
      token.kind = .operator) ∧
    ∀ (tokens : List Token) (error : Error), error.cause = .leadingComma →
      ((∃ after, commaList "(" ")" expression (.ofItems (tokens.map .ok)) =
        .error (.error error) after) ∨
        parse (tokens.map .ok) = .error (.error error)) →
      ∃ front opening comma behind, tokens = front ++ opening :: comma :: behind ∧
        opening.isOperator "(" = true ∧ comma.isOperator "," = true ∧
        error = Cause.leadingComma.located comma.location := by
  have hshift (last : Part) (behind : List Token) :
      last.text ++ behind = last.tokens ++ last.comma :: behind := by simp [Part.text]
  have hnoCall (last : Part) : last.comma.isOperator "(" = false :=
    Token.isOperator_eq_false last.isComma (by decide)
  refine ⟨fun close hclose hlexed => ?_, fun last close hclose hlexed => ?_, fun comma hcomma => ?_,
    fun last comma hcomma hlexed => ?_, fun last token hcomma hclose hcall hkind hlexed => ?_,
    fun source token => kind_of_tokenize, fun tokens error hcause h => ?_⟩
  · -- the last element, if there is one, has a comma behind it
    rcases List.eq_nil_or_concat parts with rfl | ⟨front, last, rfl⟩
    · refine (steps_expectOperator hopen).bind (steps_comingUp.bind ?_)
      rw [if_pos hclose]
      exact steps_pop.bind (.pure _)
    · simp only [List.concat_eq_append, List.flatMap_append, List.flatMap_singleton,
        List.append_assoc, hshift, List.map_append, List.map_singleton] at hlexed ⊢
      exact (leads_parts_segment front last.toSegment hopen hlexed (hnoCall last)).steps
        (steps_listTail_comma_close last.isComma hclose)
  · exact (leads_parts_segment parts last hopen hlexed (Token.isOperator_eq_false hclose
      (by decide))).steps (steps_listTail_close hclose)
  · exact fails_commaList_comma composed_expression.some hopen hcomma
  · rw [hshift] at hlexed ⊢
    have hline := hlexed.of_cons.of_append.of_append.line_le List.mem_cons_self
    exact (leads_parts_segment parts last.toSegment hopen hlexed (hnoCall last)).fails
      (fails_listTail_comma last.isComma hcomma hline)
  · refine (leads_parts_segment parts last hopen hlexed hcall).fails
      (fails_listTail_value (fun hvalue => ?_) hclose)
    exact absurd (Token.is_eq_true_iff.mpr ⟨hkind hvalue, hvalue⟩) (Bool.eq_false_iff.mp hcomma)
  · rcases h with ⟨after, hlist⟩ | hparse
    · exact leadingComma_of_argumentList hlist hcause
    · exact leadingComma_of_parse hparse hcause

/-- A call as an element of a list, with a list of its own. -/
def nestedCall : Parse.Segment where
  tokens := [⟨.name, "f", ⟨1, 1, some 2⟩⟩, ⟨.operator, "(", ⟨1, 2, some 3⟩⟩,
    ⟨.integer, "1", ⟨1, 3, some 4⟩⟩, ⟨.operator, ")", ⟨1, 4, some 5⟩⟩]
  value := .call (.name ⟨"f", ⟨1, 1, some 2⟩⟩) [.integer "1" ⟨1, 3, some 4⟩] ⟨1, 1, some 5⟩
  reads := by
    have hargument : Expression [⟨.integer, "1", ⟨1, 3, some 4⟩⟩] (.integer "1" ⟨1, 3, some 4⟩) :=
      .mk (.integer rfl) .nil
    have hlisted :
        Listed Expression [⟨.operator, "(", ⟨1, 2, some 3⟩⟩, ⟨.integer, "1", ⟨1, 3, some 4⟩⟩,
          ⟨.operator, ")", ⟨1, 4, some 5⟩⟩] [.integer "1" ⟨1, 3, some 4⟩]
            ⟨.operator, ")", ⟨1, 4, some 5⟩⟩ :=
      .elements (by decide) (.last hargument (by decide))
    refine ⟨⟨.operator, ",", ⟨1, 5, some 6⟩⟩, [], .inl (by decide),
      Parse.steps_expression ?_ ?_ (.cons (by decide))⟩
    · exact .mk (.name ⟨rfl, by decide, rfl⟩) (.cons hlisted .nil)
    · exact ⟨by simp, by simp, by simp⟩

open Parse in
/-- In `(f(1),,` the second comma is refused, and in `(f(1)` with a semicolon behind it the
semicolon. -/
theorem commaList_outcomes_nestedCall :
    Fails (⟨.operator, "(", ⟨1, 0, some 1⟩⟩ :: (nestedCall.tokens ++
        [⟨.operator, ",", ⟨1, 5, some 6⟩⟩, ⟨.operator, ",", ⟨1, 6, some 7⟩⟩]))
      (commaList "(" ")" expression)
      (.error (Cause.doubleComma.located ⟨1, 5, some 7⟩)) ∧
    Fails (⟨.operator, "(", ⟨1, 0, some 1⟩⟩ ::
        (nestedCall.tokens ++ [⟨.operator, ";", ⟨1, 5, some 6⟩⟩]))
      (commaList "(" ")" expression)
      (.error ((Cause.expectedValue ",").located ⟨1, 5, some 6⟩)) := by
  have h := commaList_outcomes (show Token.isOperator ⟨.operator, "(", ⟨1, 0, some 1⟩⟩ "(" = true by
    decide) [] []
  obtain ⟨-, -, -, hdouble, hother, -⟩ := h
  constructor
  · refine hdouble ⟨nestedCall, ⟨.operator, ",", ⟨1, 5, some 6⟩⟩, by decide⟩
      ⟨.operator, ",", ⟨1, 6, some 7⟩⟩ (by decide) ?_
    exact ⟨by simp [nestedCall, Part.text], by simp [nestedCall, Part.text], by simp [nestedCall]⟩
  · refine hother nestedCall ⟨.operator, ";", ⟨1, 5, some 6⟩⟩ (by decide) (by decide) (by decide)
      (by decide) ?_
    exact ⟨by simp [nestedCall], by simp [nestedCall], by simp [nestedCall]⟩

end FrontEnd
