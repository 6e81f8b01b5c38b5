import FrontEnd.Bracket

/-!
# Brackets that pair up

What it means that brackets pair up is said by a grammar (`Dyck`): a word of brackets is empty, or
it starts with a bracket that is closed behind a word of this kind and goes on with another one.
Tokens are read as such a word by passing over all that are no brackets (`word`).

Behind some tokens there is a list of brackets that were opened and not closed, innermost first,
with such a word behind each of them (`Unclosed`). This is the stack of `check`. It is empty exactly
if the tokens pair up, it can always be closed (`Unclosed.extendable`), and it tells which bracket
can be closed next (`Unclosed.not_extendable`). So `check` blames the first token that cannot be
mended (`check_outcome`), and if there is none, the bottom of the stack. This is the first bracket
that is never closed (`Unclosed.exists_outermost`).
-/

namespace FrontEnd.Bracket

open List

variable {token : Token} {bracket : Bracket} {side : Side} {tokens behind : List Token}
  {front back : List Side}

/-! ### Words of brackets -/

/-- One of the two sides of a bracket. -/
inductive Side where
  | opening (bracket : Bracket)
  | closing (bracket : Bracket)
deriving DecidableEq

/-- The side of a bracket that a token is. -/
def side? (token : Token) : Option Side :=
  ((openedBy? token).map .opening).or ((closedBy? token).map .closing)

/-- The brackets among some tokens. -/
def word (tokens : List Token) : List Side :=
  tokens.filterMap side?

/-- Words in which all brackets pair up. -/
inductive Dyck : List Side → Prop
  | nil : Dyck []
  | pair {bracket : Bracket} {inner rest : List Side} (inside : Dyck inner) (behind : Dyck rest) :
      Dyck (.opening bracket :: (inner ++ .closing bracket :: rest))

/-- Words that start a word in which all brackets pair up. -/
def Extendable (front : List Side) : Prop :=
  ∃ back, Dyck (front ++ back)

/-- A token that opens a bracket, with the one that closes it among those behind it: what is in
between pairs up. -/
def HasCloser (token : Token) (behind : List Token) : Prop :=
  ∃ bracket inner close rest, openedBy? token = some bracket ∧ behind = inner ++ close :: rest ∧
    Dyck (word inner) ∧ closedBy? close = some bracket

theorem side?_of_openedBy? (h : openedBy? token = some bracket) :
    side? token = some (.opening bracket) := by
  rw [side?, h]
  rfl

theorem openedBy?_of_side? (h : side? token = some (.opening bracket)) :
    openedBy? token = some bracket := by
  rw [side?] at h
  cases hopened : openedBy? token with
  | some => simpa [hopened] using h
  | none => simp [hopened] at h

/-- No token opens a bracket and closes one. -/
theorem openedBy?_of_closedBy? (h : closedBy? token = some bracket) : openedBy? token = none := by
  have hapart : ∀ {value other : String}, value ≠ other → token.isOperator value = true →
      token.isOperator other = false := by
    intro value other hne hvalue
    obtain ⟨-, rfl⟩ := Token.is_eq_true_iff.mp hvalue
    simp [Token.isOperator, Token.is, hne]
  have hclosing : token.isOperator "\x7d" = true ∨ token.isOperator ")" = true := by
    rw [closedBy?] at h
    split at h
    · next hbrace => exact .inl hbrace
    · split at h
      · next hparenthesis => exact .inr hparenthesis
      · cases h
  rw [openedBy?]
  rcases hclosing with hclosing | hclosing
  · rw [hapart (by decide) hclosing, hapart (by decide) hclosing]
    rfl
  · rw [hapart (by decide) hclosing, hapart (by decide) hclosing]
    rfl

theorem side?_of_closedBy? (h : closedBy? token = some bracket) :
    side? token = some (.closing bracket) := by
  rw [side?, openedBy?_of_closedBy? h, h]
  rfl

theorem closedBy?_of_side? (h : side? token = some (.closing bracket)) :
    closedBy? token = some bracket := by
  rw [side?] at h
  cases hopened : openedBy? token with
  | some => simp [hopened] at h
  | none => simpa [hopened] using h

theorem side?_eq_none_iff :
    side? token = none ↔ openedBy? token = none ∧ closedBy? token = none := by
  simp [side?]

@[simp] theorem word_append (front back : List Token) :
    word (front ++ back) = word front ++ word back :=
  filterMap_append

theorem word_cons_of_side? (h : side? token = some side) (tokens : List Token) :
    word (token :: tokens) = side :: word tokens :=
  filterMap_cons_some h

theorem word_cons_of_none (h : side? token = none) (tokens : List Token) :
    word (token :: tokens) = word tokens :=
  filterMap_cons_none h

/-- A part of the word in front of one of its brackets comes from the tokens in front of that
bracket. -/
theorem exists_of_word_eq (h : word tokens = front ++ side :: back) :
    ∃ before token behind, tokens = before ++ token :: behind ∧ word before = front ∧
      side? token = some side ∧
      word behind = back := by
  obtain ⟨before, others, rfl, hbefore, hothers⟩ := filterMap_eq_append_iff.mp h
  obtain ⟨passed, token, behind, rfl, hpassed, htoken, hbehind⟩ := filterMap_eq_cons_iff.mp hothers
  refine ⟨before ++ passed, token, behind, by simp, ?_, htoken, hbehind⟩
  rw [word_append, show word before = front from hbefore,
    show word passed = [] from filterMap_eq_nil_iff.mpr hpassed, append_nil]

/-! ### The stack -/

/-- What is open behind a word, innermost first, or nothing if the word closes what is not open. -/
def run : List Bracket → List Side → Option (List Bracket)
  | stack, [] => some stack
  | stack, .opening bracket :: rest => run (bracket :: stack) rest
  | [], .closing _ :: _ => none
  | top :: stack, .closing bracket :: rest => if top = bracket then run stack rest else none

theorem run_append (stack : List Bracket) (front back : List Side) :
    run stack (front ++ back) = (run stack front).bind fun middle => run middle back := by
  fun_induction run stack front with
  | case1 => simp
  | case2 stack bracket rest ih => simpa [run] using ih
  | case3 => simp [run]
  | case4 stack bracket rest ih => simpa [run] using ih
  | case5 top stack bracket rest hne => simp [run, hne]

/-- A word that pairs up leaves the stack as it was. -/
theorem Dyck.run_eq {word : List Side} (h : Dyck word) (stack : List Bracket) :
    run stack word = some stack := by
  induction h generalizing stack with
  | nil => rfl
  | @pair bracket inner rest inside behind ihinside ihbehind =>
    rw [run, run_append, ihinside, Option.bind_some, run, if_pos rfl, ihbehind]

theorem Dyck.append (hfront : Dyck front) (hback : Dyck back) : Dyck (front ++ back) := by
  induction hfront with
  | nil => exact hback
  | pair inside behind _ ihbehind =>
    rw [cons_append, append_assoc]
    exact .pair inside ihbehind

/-- In a word that pairs up, each bracket that is opened has the side that closes it. -/
theorem Dyck.exists_closing {word : List Side} (h : Dyck word)
    (heq : word = front ++ .opening bracket :: back) :
    ∃ inner rest, back = inner ++ .closing bracket :: rest ∧ Dyck inner := by
  induction h generalizing front back with
  | nil => simp at heq
  | @pair other inner rest inside behind ihinside ihbehind =>
    cases front with
    | nil =>
      obtain ⟨hside, rfl⟩ := cons.inj heq
      obtain rfl := Side.opening.inj hside
      exact ⟨inner, rest, rfl, inside⟩
    | cons =>
      obtain ⟨-, heq⟩ := cons.inj heq
      -- the bracket is inside of the first pair or behind it
      rcases append_eq_append_iff.mp heq with ⟨more, rfl, hmore⟩ | ⟨more, rfl, hmore⟩
      · cases more with
        | nil => cases hmore
        | cons =>
          obtain ⟨-, rfl⟩ := cons.inj hmore
          exact ihbehind rfl
      · cases more with
        | nil => cases hmore
        | cons =>
          obtain ⟨rfl, rfl⟩ := cons.inj hmore
          obtain ⟨within, others, rfl, hwithin⟩ := ihinside rfl
          exact ⟨within, others ++ .closing other :: rest, by simp, hwithin⟩

/-- Among tokens that pair up, each bracket that is opened has the token that closes it. -/
theorem hasCloser_of_dyck {before : List Token} (h : Dyck (word (before ++ token :: behind)))
    (htoken : openedBy? token = some bracket) : HasCloser token behind := by
  rw [word_append, word_cons_of_side? (side?_of_openedBy? htoken)] at h
  obtain ⟨inner, rest, hword, hinner⟩ := h.exists_closing rfl
  obtain ⟨between, close, others, rfl, rfl, hclose, -⟩ := exists_of_word_eq hword
  exact ⟨bracket, between, close, others, htoken, rfl, hinner, closedBy?_of_side? hclose⟩

theorem HasCloser.append (h : HasCloser token behind) (more : List Token) :
    HasCloser token (behind ++ more) := by
  obtain ⟨bracket, inner, close, rest, hopened, rfl, hinner, hclose⟩ := h
  exact ⟨bracket, inner, close, rest ++ more, hopened, by simp, hinner, hclose⟩

/-! ### What is open behind some tokens -/

/-- The brackets that some tokens open and do not close, innermost first. -/
inductive Unclosed : List Token → List Opened → Prop
  | nothing {tokens : List Token} (balanced : Dyck (word tokens)) : Unclosed tokens []
  | opened {outer inner : List Token} {token : Token} {bracket : Bracket} {opened : List Opened}
      (around : Unclosed outer opened) (opens : openedBy? token = some bracket)
      (balanced : Dyck (word inner)) :
      Unclosed (outer ++ token :: inner) (⟨bracket, token.location⟩ :: opened)

namespace Unclosed

variable {tokens more : List Token} {opened : List Opened} {token : Token} {bracket : Bracket}
  {innermost : Opened}

/-- Tokens that pair up among themselves open nothing. -/
theorem append (h : Unclosed tokens opened) (hmore : Dyck (word more)) :
    Unclosed (tokens ++ more) opened := by
  cases h with
  | nothing balanced => exact .nothing (word_append _ _ ▸ balanced.append hmore)
  | opened around opens balanced =>
    rw [append_assoc, cons_append]
    exact .opened around opens (word_append _ _ ▸ balanced.append hmore)

theorem push (h : Unclosed tokens opened) (htoken : openedBy? token = some bracket) :
    Unclosed (tokens ++ [token]) (⟨bracket, token.location⟩ :: opened) :=
  .opened h htoken .nil

theorem pass (h : Unclosed tokens opened) (htoken : side? token = none) :
    Unclosed (tokens ++ [token]) opened :=
  h.append (word_cons_of_none htoken [] ▸ .nil)

theorem pop (h : Unclosed tokens (innermost :: opened))
    (htoken : closedBy? token = some innermost.bracket) :
    Unclosed (tokens ++ [token]) opened := by
  cases h with
  | @opened outer inner first _ _ around opens balanced =>
    have hpair : Dyck (word (first :: (inner ++ [token]))) := by
      rw [word_cons_of_side? (side?_of_openedBy? opens), word_append,
        word_cons_of_side? (side?_of_closedBy? htoken)]
      exact .pair balanced .nil
    rw [append_assoc, cons_append]
    exact around.append hpair

theorem run_eq (h : Unclosed tokens opened) :
    run [] (word tokens) = some (opened.map Opened.bracket) := by
  induction h with
  | nothing balanced => exact balanced.run_eq []
  | opened around opens balanced ih =>
    rw [word_append, run_append, ih, Option.bind_some,
      word_cons_of_side? (side?_of_openedBy? opens), run, balanced.run_eq]
    rfl

/-- Nothing is open exactly behind tokens that pair up. -/
theorem dyck_iff (h : Unclosed tokens opened) : Dyck (word tokens) ↔ opened = [] := by
  constructor
  · intro hdyck
    have hrun := h.run_eq
    rw [hdyck.run_eq] at hrun
    simpa using hrun.symm
  · rintro rfl
    cases h with
    | nothing balanced => exact balanced

/-- What is open can be closed, innermost first. -/
theorem extendable (h : Unclosed tokens opened) : Extendable (word tokens) := by
  -- what pairs up may also come in front of the sides that close
  suffices hclosed : ∃ back, ∀ between, Dyck between → Dyck (word tokens ++ (between ++ back)) from
    hclosed.imp fun back hback => hback [] .nil
  induction h with
  | nothing balanced =>
    exact ⟨[], fun between hbetween => balanced.append (by simpa using hbetween)⟩
  | @opened outer inner token bracket opened around opens balanced ih =>
    obtain ⟨back, hback⟩ := ih
    refine ⟨.closing bracket :: back, fun between hbetween => ?_⟩
    have hpair := hback _ (.pair (balanced.append hbetween) .nil : Dyck (.opening bracket :: _))
    rw [word_append, word_cons_of_side? (side?_of_openedBy? opens)]
    simpa using hpair

/-- No other bracket than the innermost can be closed. -/
theorem not_extendable (h : Unclosed tokens opened) (htoken : closedBy? token = some bracket)
    (hinnermost : (opened.head?).map Opened.bracket ≠ some bracket) :
    ¬ Extendable (word (tokens ++ [token])) := by
  rintro ⟨back, hback⟩
  have hrun := hback.run_eq []
  rw [word_append, run_append, run_append, h.run_eq, Option.bind_some,
    word_cons_of_side? (side?_of_closedBy? htoken)] at hrun
  cases opened with
  | nil => cases hrun
  | cons =>
    rw [head?_cons, Option.map_some] at hinnermost
    rw [map_cons, run, if_neg fun heq => hinnermost (congrArg some heq)] at hrun
    cases hrun

/-- The innermost bracket that is open, with what pairs up behind it. -/
theorem exists_innermost (h : Unclosed tokens (innermost :: opened)) :
    ∃ outer token inner, tokens = outer ++ token :: inner ∧
      openedBy? token = some innermost.bracket ∧
      Dyck (word inner) := by
  cases h with
  | opened around opens balanced => exact ⟨_, _, _, rfl, opens, balanced⟩

/-- **The bottom of the stack is the first bracket that is never closed.** What is in front of it
pairs up. -/
theorem exists_outermost {outermost : Opened} (h : Unclosed tokens (opened ++ [outermost])) :
    ∃ front token back, tokens = front ++ token :: back ∧ openedBy? token = some outermost.bracket ∧
      token.location = outermost.location ∧ Dyck (word front) ∧ Unclosed back opened := by
  generalize hstack : opened ++ [outermost] = stack at h
  induction h generalizing opened with
  | nothing => simp at hstack
  | @opened outer inner token bracket stack around opens balanced ih =>
    cases opened with
    | nil =>
      obtain ⟨rfl, rfl⟩ := cons.inj hstack
      exact ⟨outer, token, inner, rfl, opens, rfl, around.dyck_iff.mpr rfl, .nothing balanced⟩
    | cons =>
      obtain ⟨rfl, hrest⟩ := cons.inj hstack
      obtain ⟨front, first, back, rfl, hfirst, hlocation, hfront, hback⟩ := ih hrest
      refine ⟨front, first, back ++ token :: inner, by simp, hfirst, hlocation, hfront, ?_⟩
      exact .opened hback opens balanced

/-- A bracket with nothing but open brackets and pairs behind it is not closed. -/
theorem not_hasCloser (h : Unclosed tokens opened) : ¬ HasCloser token tokens := by
  rintro ⟨bracket, inner, close, rest, -, rfl, hinner, hclose⟩
  have hrun := h.run_eq
  rw [word_append, run_append, hinner.run_eq, Option.bind_some,
    word_cons_of_side? (side?_of_closedBy? hclose)] at hrun
  cases hrun

end Unclosed

/-! ### Checking -/

section Steps

variable {token : Token} {bracket : Bracket}

theorem checkFrom_opens (h : openedBy? token = some bracket) (opened : List Opened)
    (tokens : List Token) :
    checkFrom opened (token :: tokens) =
      checkFrom (⟨bracket, token.location⟩ :: opened) tokens := by
  rw [checkFrom, h]

theorem checkFrom_passes (h : side? token = none) (opened : List Opened) (tokens : List Token) :
    checkFrom opened (token :: tokens) = checkFrom opened tokens := by
  obtain ⟨hopened, hclosed⟩ := side?_eq_none_iff.mp h
  rw [checkFrom, hopened, hclosed]

theorem checkFrom_closes_nothing (h : closedBy? token = some bracket) (tokens : List Token) :
    checkFrom [] (token :: tokens) =
      .error ((Cause.missingBrace bracket.opener).located token.location) := by
  rw [checkFrom, openedBy?_of_closedBy? h]
  simp only [h]

theorem checkFrom_closes (h : closedBy? token = some bracket) (innermost : Opened)
    (opened : List Opened) (tokens : List Token) :
    checkFrom (innermost :: opened) (token :: tokens) =
      if innermost.bracket = bracket then checkFrom opened tokens
      else .error ((Cause.mismatchedBrace innermost.bracket.closer).located token.location) := by
  rw [checkFrom, openedBy?_of_closedBy? h]
  simp only [h]

end Steps

/-- The ways in which checking `tokens` can end. -/
inductive Outcome (tokens : List Token) : Except Error Unit → Prop
  | balanced (unclosed : Unclosed tokens []) : Outcome tokens (.ok ())
  /-- A token closes what was not opened. -/
  | nothingOpen {front back : List Token} {token : Token} {bracket : Bracket}
      (isToken : tokens = front ++ token :: back) (closes : closedBy? token = some bracket)
      (unclosed : Unclosed front []) :
      Outcome tokens (.error ((Cause.missingBrace bracket.opener).located token.location))
  /-- A token closes another bracket than the innermost one. -/
  | otherOpen {front back : List Token} {token : Token} {bracket : Bracket} {innermost : Opened}
      {opened : List Opened} (isToken : tokens = front ++ token :: back)
      (closes : closedBy? token = some bracket) (unclosed : Unclosed front (innermost :: opened))
      (other : innermost.bracket ≠ bracket) :
      Outcome tokens (.error ((Cause.mismatchedBrace innermost.bracket.closer).located
        token.location))
  | leftOpen {outermost : Opened} {opened : List Opened}
      (unclosed : Unclosed tokens (opened ++ [outermost])) :
      Outcome tokens (.error ((Cause.missingBrace outermost.bracket.closer).located
        outermost.location))

/-- What is open in front of the tokens to come decides, together with them. -/
theorem checkFrom_outcome {front : List Token} {opened : List Opened} (h : Unclosed front opened)
    (back : List Token) :
    Outcome (front ++ back) (checkFrom opened back) := by
  induction back generalizing front opened with
  | nil =>
    rw [append_nil]
    rcases eq_nil_or_concat opened with rfl | ⟨opened, outermost, hopened⟩
    · exact .balanced h
    · rw [concat_eq_append] at hopened
      subst hopened
      rw [checkFrom, getLast?_concat]
      exact .leftOpen h
  | cons token back ih =>
    have hnext : ∀ {opened' : List Opened}, Unclosed (front ++ [token]) opened' →
        Outcome (front ++ token :: back) (checkFrom opened' back) := by
      intro opened' hopened
      simpa using ih hopened
    cases hside : side? token with
    | none =>
      rw [checkFrom_passes hside]
      exact hnext (h.pass hside)
    | some side =>
      cases side with
      | opening =>
        have htoken := openedBy?_of_side? hside
        rw [checkFrom_opens htoken]
        exact hnext (h.push htoken)
      | closing bracket =>
        have htoken := closedBy?_of_side? hside
        cases opened with
        | nil =>
          rw [checkFrom_closes_nothing htoken]
          exact .nothingOpen rfl htoken h
        | cons innermost opened =>
          rw [checkFrom_closes htoken]
          split
          · next heq => exact hnext (h.pop (heq ▸ htoken))
          · next hne => exact .otherOpen rfl htoken h hne

theorem check_outcome (tokens : List Token) : Outcome tokens (check tokens) := by
  have hstart : Unclosed [] [] := .nothing .nil
  exact checkFrom_outcome hstart tokens

/-- What is no bracket makes no difference. -/
theorem checkFrom_drop (h : side? token = none) (opened : List Opened) (front back : List Token) :
    checkFrom opened (front ++ token :: back) = checkFrom opened (front ++ back) := by
  induction front generalizing opened with
  | nil => exact checkFrom_passes h opened back
  | cons first front ih =>
    simp only [cons_append, checkFrom, ih]

/-! ### Balance and blame -/

theorem Dyck.extendable (h : Dyck front) : Extendable front :=
  ⟨[], by rwa [append_nil]⟩

/-- What can be extended can be so after any part of it. -/
theorem Extendable.of_prefix {front : List Token} (h : Extendable (word tokens))
    (hfront : front <+: tokens) :
    Extendable (word front) := by
  obtain ⟨between, rfl⟩ := hfront
  obtain ⟨back, hback⟩ := h
  rw [word_append, append_assoc] at hback
  exact ⟨word between ++ back, hback⟩

/-- Tokens with a part that cannot be extended do not pair up. -/
theorem not_extendable_of_part {front back : List Token}
    (h : ¬ Extendable (word (front ++ [token]))) :
    ¬ Extendable (word (front ++ token :: back)) :=
  fun hextendable => h (hextendable.of_prefix ⟨back, by simp⟩)

theorem check_eq_ok_iff (tokens : List Token) : check tokens = .ok () ↔ Dyck (word tokens) := by
  have houtcome := check_outcome tokens
  generalize check tokens = result at houtcome
  cases houtcome with
  | balanced unclosed => exact iff_of_true rfl (unclosed.dyck_iff.mpr rfl)
  | nothingOpen isToken closes unclosed =>
    subst isToken
    refine iff_of_false (by simp) fun hdyck => ?_
    exact not_extendable_of_part (unclosed.not_extendable closes (by simp)) hdyck.extendable
  | otherOpen isToken closes unclosed other =>
    subst isToken
    refine iff_of_false (by simp) fun hdyck => ?_
    exact not_extendable_of_part (unclosed.not_extendable closes (by simpa using other))
      hdyck.extendable
  | leftOpen unclosed =>
    refine iff_of_false (by simp) fun hdyck => ?_
    simpa using unclosed.dyck_iff.mp hdyck

/-- **Checking decides whether brackets pair up, and blames the right token.** It succeeds exactly
if they do. If some part at the start of the tokens cannot be extended so that they do, the last
token of the shortest such part is blamed: it closes a bracket, and its opening side is missing if
all is closed in front of it, else it should close the innermost bracket that is open. If each part
can be extended, the first bracket without a closing side is blamed. Tokens that are no brackets
make no difference. -/
theorem check_blames (tokens : List Token) :
    (check tokens = .ok () ↔ Dyck (word tokens)) ∧
    ((∃ bad, bad <+: tokens ∧ ¬ Extendable (word bad)) →
      ∃ front token back bracket, tokens = front ++ token :: back ∧ closedBy? token = some bracket ∧
        (∀ shorter, shorter <+: front → Extendable (word shorter)) ∧
        ¬ Extendable (word (front ++ [token])) ∧
        (Dyck (word front) ∧
          check tokens = .error ((Cause.missingBrace bracket.opener).located token.location) ∨
          ¬ Dyck (word front) ∧ ∃ outer innermost inner other, front = outer ++ innermost :: inner ∧
            openedBy? innermost = some other ∧ Dyck (word inner) ∧
            check tokens = .error ((Cause.mismatchedBrace other.closer).located token.location))) ∧
    (¬ Dyck (word tokens) → (∀ front, front <+: tokens → Extendable (word front)) →
      ∃ front token back bracket, tokens = front ++ token :: back ∧ openedBy? token = some bracket ∧
        ¬ HasCloser token back ∧
        (∀ before first between, front = before ++ first :: between →
          (openedBy? first).isSome = true →
          HasCloser first (between ++ token :: back)) ∧
        check tokens = .error ((Cause.missingBrace bracket.closer).located token.location)) ∧
    ∀ front token back, tokens = front ++ token :: back → side? token = none →
      check tokens = check (front ++ back) := by
  refine ⟨check_eq_ok_iff tokens, ?_, ?_, ?_⟩
  · rintro ⟨bad, hbad, hnot⟩
    have houtcome := check_outcome tokens
    generalize check tokens = result at houtcome ⊢
    cases houtcome with
    | balanced unclosed => exact absurd (unclosed.extendable.of_prefix hbad) hnot
    | leftOpen unclosed => exact absurd (unclosed.extendable.of_prefix hbad) hnot
    | @nothingOpen front back token bracket isToken closes unclosed =>
      refine ⟨front, token, back, bracket, isToken, closes, fun shorter =>
        unclosed.extendable.of_prefix, unclosed.not_extendable closes (by simp),
          .inl ⟨unclosed.dyck_iff.mpr rfl, rfl⟩⟩
    | @otherOpen front back token bracket innermost opened isToken closes unclosed other =>
      obtain ⟨outer, first, inner, hfront, hfirst, hinner⟩ := unclosed.exists_innermost
      refine ⟨front, token, back, bracket, isToken, closes, fun shorter =>
        unclosed.extendable.of_prefix, unclosed.not_extendable closes (by simpa using other),
          .inr ⟨fun hdyck => ?_, ?_⟩⟩
      · cases unclosed.dyck_iff.mp hdyck
      · exact ⟨outer, first, inner, innermost.bracket, hfront, hfirst, hinner, rfl⟩
  · intro hdyck hextendable
    have houtcome := check_outcome tokens
    generalize check tokens = result at houtcome ⊢
    cases houtcome with
    | balanced unclosed => exact absurd (unclosed.dyck_iff.mpr rfl) hdyck
    | nothingOpen isToken closes unclosed =>
      refine absurd (hextendable _ ?_) (unclosed.not_extendable closes (by simp))
      exact ⟨_, by rw [isToken, List.append_assoc, List.singleton_append]⟩
    | otherOpen isToken closes unclosed other =>
      refine absurd (hextendable _ ?_) (unclosed.not_extendable closes (by simpa using other))
      exact ⟨_, by rw [isToken, List.append_assoc, List.singleton_append]⟩
    | @leftOpen outermost opened unclosed =>
      obtain ⟨front, token, back, hsplit, hopened, hlocation, hfront, hback⟩ :=
        unclosed.exists_outermost
      refine ⟨front, token, back, outermost.bracket, hsplit, hopened, hback.not_hasCloser, ?_, by
        rw [hlocation]⟩
      rintro before first between rfl hfirst
      obtain ⟨bracket, hfirst⟩ := Option.isSome_iff_exists.mp hfirst
      exact (hasCloser_of_dyck hfront hfirst).append _
  · rintro front token back rfl hside
    exact checkFrom_drop hside [] front back

/-- Two brackets that cross, with a name between them. -/
def crossed : List Token :=
  [⟨.operator, "(", ⟨1, 0, some 1⟩⟩, ⟨.operator, "\x7b", ⟨1, 1, some 2⟩⟩,
    ⟨.name, "x", ⟨1, 2, some 3⟩⟩,
    ⟨.operator, ")", ⟨1, 3, some 4⟩⟩, ⟨.operator, "\x7d", ⟨1, 4, some 5⟩⟩]

/-- The first side that closes is not the one for the innermost bracket. -/
theorem check_blames_crossed : (∃ bad, bad <+: crossed ∧ ¬ Extendable (word bad)) ∧
    check crossed = .error ((Cause.mismatchedBrace '\x7d').located ⟨1, 3, some 4⟩) ∧
    ∃ front token back, crossed = front ++ token :: back ∧ ¬ Extendable (word (front ++ [token])) ∧
      ¬ Dyck (word front) := by
  have hbad : ∃ bad, bad <+: crossed ∧ ¬ Extendable (word bad) := by
    refine ⟨crossed, List.prefix_rfl, fun ⟨back, hback⟩ => ?_⟩
    cases hback.run_eq []
  have hcheck : check crossed = .error ((Cause.mismatchedBrace '\x7d').located ⟨1, 3, some 4⟩) :=
    rfl
  obtain ⟨front, token, back, bracket, heq, -, -, hnot, hblamed⟩ := (check_blames crossed).2.1 hbad
  refine ⟨hbad, hcheck, front, token, back, heq, hnot, ?_⟩
  rcases hblamed with ⟨-, herror⟩ | ⟨hopen, -⟩
  · rw [hcheck] at herror
    cases herror
  · exact hopen

end FrontEnd.Bracket
