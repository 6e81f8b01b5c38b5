import FrontEnd.Proofs.Token.Spelling
import FrontEnd.Token.Lexer
import Mathlib.Data.List.Induction

/-!
# Lexing cuts the text

A lexer cuts its text into pieces: tokens, and stretches between them that are left out. Nothing is
lost and nothing is moved (`Cut`). Each token carries the place at which it stands, counted from the
text in front of it, and the cut ends where the text does or in front of the first thing that no
program contains.

The places of tokens are counted twice here. `Location.behind` counts them along the text, as a
lexer can, and `Location.Shows` reads them off the lines of the text, as a reader would. That the
first always gives the second is `shows_behind`.
-/

open List

namespace FrontEnd

variable {kind : Token.Kind} {rest bad : List Char} {cause : Cause}

/-! ### Places -/

namespace Text

/-- The end of a text that stands on its last line. -/
def lastLine (text : List Char) : List Char :=
  (text.reverse.takeWhile (· ≠ '\n')).reverse

theorem lastLine_append {back : List Char} (h : '\n' ∉ back) (front : List Char) :
    lastLine (front ++ back) = lastLine front ++ back := by
  have hback : ∀ c ∈ back.reverse, decide (c ≠ '\n') = true := by
    intro c hc
    exact decide_eq_true (ne_of_mem_of_not_mem (mem_reverse.mp hc) h)
  rw [lastLine, reverse_append, takeWhile_append_of_pos hback, reverse_append,
    reverse_reverse, lastLine]

theorem lastLine_append_newline (front : List Char) : lastLine (front ++ ['\n']) = [] := by
  simp [lastLine]

/-- What is in front of a line break does not matter. -/
theorem lastLine_cons_of_mem {text : List Char} (h : '\n' ∈ text) (c : Char) :
    lastLine (c :: text) = lastLine text := by
  have hlength : (text.reverse.takeWhile (· ≠ '\n')).length ≠ text.reverse.length := by
    intro heq
    have hself := (List.takeWhile_prefix (· ≠ '\n')).eq_of_length heq
    have hall := takeWhile_eq_self_iff.mp hself '\n' (mem_reverse.mpr h)
    simp at hall
  rw [lastLine, reverse_cons, takeWhile_append, if_neg hlength, lastLine]

theorem lastLine_newline_cons (text : List Char) : lastLine ('\n' :: text) = lastLine text := by
  by_cases h : '\n' ∈ text
  · exact lastLine_cons_of_mem h _
  · have hfront := lastLine_append h ['\n']
    have hwhole := lastLine_append h []
    rw [show lastLine ['\n'] = [] from lastLine_append_newline []] at hfront
    exact hfront.trans hwhole.symm

/-- The line on which a text ends goes on with the first line of what is behind the text. -/
theorem getElem?_splitOn_append (before behind : List Char) :
      ((before ++ behind).splitOn '\n')[before.count '\n']? =
        (behind.splitOn '\n').head?.map (lastLine before ++ ·) := by
  induction before with
  | nil =>
    rw [nil_append, count_nil, head?_eq_getElem?]
    cases (behind.splitOn '\n')[0]? <;> rfl
  | cons c before ih =>
    rw [cons_append, List.splitOn, splitOnP_cons_eq_if_modifyHead, ← List.splitOn]
    by_cases hc : c = '\n'
    · -- a line break closes the first line
      subst hc
      rw [if_pos (by simp), count_cons_self, getElem?_cons_succ, ih, lastLine_newline_cons]
    · rw [if_neg (by simpa using hc), count_cons_of_ne hc, getElem?_modifyHead, ih]
      by_cases hmem : '\n' ∈ before
      · -- the first line is over before the text is
        have hcount : before.count '\n' ≠ 0 := Nat.ne_of_gt (count_pos_iff.mpr hmem)
        rw [if_neg hcount, lastLine_cons_of_mem hmem]
      · have hcount : before.count '\n' = 0 := count_eq_zero.mpr hmem
        have hwhole := lastLine_append hmem []
        have hcons : lastLine (c :: before) = c :: before :=
          lastLine_append (not_mem_cons_of_ne_of_not_mem (Ne.symm hc) hmem) []
        rw [if_pos hcount, hcons, show lastLine before = before from hwhole, Option.map_map]
        rfl

/-- A stretch without line breaks in front of a text is in front of its first line. -/
theorem head?_splitOn_append {stretch : List Char} (h : '\n' ∉ stretch) (behind : List Char) :
    ∃ back, ((stretch ++ behind).splitOn '\n').head? = some (stretch ++ back) := by
  have hline := getElem?_splitOn_append stretch behind
  have hwhole := lastLine_append h []
  rw [count_eq_zero.mpr h, ← head?_eq_getElem?] at hline
  rw [hline]
  cases hhead : (behind.splitOn '\n').head? with
  | none => exact absurd (head?_eq_none_iff.mp hhead) (splitOnP_ne_nil _ _)
  | some back => exact ⟨back, congrArg (some <| · ++ back) hwhole⟩

end Text

/-- The place of a stretch of text behind another text. -/
def Location.behind (before stretch : List Char) : Location :=
  let column := (Text.lastLine before).length
  ⟨before.count '\n' + 1, column, some (column + stretch.length)⟩

/-- A stretch is what a location covers in a text, line by line. -/
def Location.Shows (location : Location) (text stretch : List Char) : Prop :=
  ∃ front back, 1 ≤ location.line ∧
    (text.splitOn '\n')[location.line - 1]? = some (front ++ stretch ++ back) ∧
    location.start = front.length ∧ location.stop = some (front.length + stretch.length)

/-- A location ends before another one starts. -/
def Location.Precedes (first second : Location) : Prop :=
  first.line < second.line ∨
    first.line = second.line ∧ first.start < second.start ∧ ∃ stop ∈ first.stop, stop ≤ second.start

/-- Going over a text counts its line breaks and what is behind the last of them. -/
theorem Position.advance_eq (before : List Char) :
    ({} : Position).advance before = ⟨before.count '\n' + 1, (Text.lastLine before).length⟩ := by
  induction before using List.reverseRecOn with
  | nil => rfl
  | append_singleton before c ih =>
    rw [advance_append, ih]
    change after _ c = _
    by_cases hc : c = '\n'
    · subst hc
      simp [after, Text.lastLine_append_newline]
    · rw [Text.lastLine_append (by simpa using Ne.symm hc)]
      simp [after, hc]

theorem Position.across_advance (before stretch : List Char) :
    (({} : Position).advance before).across stretch = .behind before stretch := by
  rw [advance_eq]
  rfl

namespace Location

variable {stretch : List Char}

/-- **Counting along a text finds the line and the columns of a stretch.** -/
theorem shows_behind (h : '\n' ∉ stretch) (before after : List Char) :
    (behind before stretch).Shows (before ++ (stretch ++ after)) stretch := by
  obtain ⟨back, hback⟩ := Text.head?_splitOn_append h after
  refine ⟨Text.lastLine before, back, Nat.le_add_left _ _, ?_, rfl, rfl⟩
  change ((before ++ (stretch ++ after)).splitOn '\n')[before.count '\n']? = _
  rw [Text.getElem?_splitOn_append, hback, append_assoc]
  rfl

/-- What is behind a stretch comes later. -/
theorem precedes_behind (hline : '\n' ∉ stretch) (hne : stretch ≠ [])
    (before between other : List Char) :
    (behind before stretch).Precedes (behind (before ++ stretch ++ between) other) := by
  by_cases hbetween : '\n' ∈ between
  · -- another line has begun
    have hpos := count_pos_iff.mpr hbetween
    refine .inl ?_
    change before.count '\n' + 1 < (before ++ stretch ++ between).count '\n' + 1
    rw [count_append, count_append]
    omega
  · have hlength := length_pos_iff.mpr hne
    have hcount : (before ++ stretch ++ between).count '\n' = before.count '\n' := by
      rw [count_append, count_append, count_eq_zero.mpr hline, count_eq_zero.mpr hbetween]
      rfl
    have hlast : (Text.lastLine (before ++ stretch ++ between)).length =
        (Text.lastLine before).length + stretch.length + between.length := by
      rw [Text.lastLine_append hbetween, Text.lastLine_append hline, length_append, length_append]
    refine .inr ⟨congrArg (· + 1) hcount.symm, ?_, _, rfl, ?_⟩
    · change (Text.lastLine before).length < (Text.lastLine (before ++ stretch ++ between)).length
      omega
    · change (Text.lastLine before).length + stretch.length ≤
        (Text.lastLine (before ++ stretch ++ between)).length
      omega

end Location

/-! ### Cuts -/

/-- A piece of a text: a token, or a stretch that is left out. -/
inductive Piece where
  | token (token : Token)
  | skipped (text : List Char)

/-- The characters of a piece. -/
def Piece.text : Piece → List Char
  | .token word => word.value.toList
  | .skipped text => text

/-- A text behind another one is cut into pieces, with the items that this gives. The text is cut to
its end, or up to something that could not stand in a program. -/
inductive Cut : List Char → List Char → List Piece → List Item → Prop
  | done {before : List Char} : Cut before [] [] []
  | token {before rest : List Char} {token : Token} {pieces : List Piece} {items : List Item}
      (longest : token.kind.Longest (token.value.toList ++ rest) token.value.toList)
      (located : token.location = .behind before token.value.toList)
      (more : Cut (before ++ token.value.toList) rest pieces items) :
      Cut before (token.value.toList ++ rest) (.token token :: pieces) (.ok token :: items)
  | skip {before text rest : List Char} {pieces : List Piece} {items : List Item}
      (longest : Skippable.Longest (text ++ rest) text)
      (more : Cut (before ++ text) rest pieces items) :
      Cut before (text ++ rest) (.skipped text :: pieces) items
  | fault {before bad rest : List Char} {cause : Cause} (offends : Offends cause bad)
      (unfit : ¬Fits (bad ++ rest)) :
      Cut before (bad ++ rest) [] [.error (cause.located (.behind before bad))]

/-- A token of the text that is cut, put together from its lexeme. -/
theorem Cut.ofLexeme {before text : List Char} {pieces : List Piece} {items : List Item}
    (longest : kind.Longest (text ++ rest) text) (more : Cut (before ++ text) rest pieces items) :
    Cut before (text ++ rest) (.token ⟨kind, String.ofList text, .behind before text⟩ :: pieces)
      (.ok ⟨kind, String.ofList text, .behind before text⟩ :: items) := by
  have htext : (String.ofList text).toList = text := String.toList_ofList
  generalize hvalue : String.ofList text = value at *
  subst htext
  let word : Token := ⟨kind, value, .behind before value.toList⟩
  have hcut : Cut before (word.value.toList ++ rest) (.token word :: pieces) (.ok word :: items) :=
    .token longest rfl more
  exact hcut

namespace Lexer

variable {lexer : Lexer} {text rest : List Char}

/-- Blanks and comments give nothing. -/
theorem items_of_blank (hstopped : lexer.stopped = false)
    (h : Lexeme.first? lexer.rest = some (.blank text, rest)) :
    lexer.items = (lexer.skip (.blank text) rest).items := by
  have hnext : lexer.next = (lexer.skip (.blank text) rest).next := by
    rw [next_eq, hstopped, h]
    rfl
  rw [items_eq, hnext, ← items_eq]

theorem items_of_token {kind : Token.Kind} (hstopped : lexer.stopped = false)
    (h : Lexeme.first? lexer.rest = some (.token kind text, rest)) :
    lexer.items = .ok ⟨kind, String.ofList text, lexer.position.across text⟩ ::
      (lexer.skip (.token kind text) rest).items := by
  rw [items_eq, next_eq, hstopped, h]
  rfl

theorem items_of_stopped (h : lexer.stopped = true) : lexer.items = [] := by
  rw [items_eq, next_eq, h]
  rfl

theorem items_of_faulty {cause : Cause} (hstopped : lexer.stopped = false)
    (h : Lexeme.first? lexer.rest = some (.faulty cause text, rest)) :
    lexer.items = [.error (cause.located (lexer.position.across text))] := by
  have hlast : ({ lexer with stopped := true } : Lexer).items = [] := items_of_stopped rfl
  rw [items_eq, next_eq, hstopped, h]
  change _ :: ({ lexer with stopped := true } : Lexer).items = _
  rw [hlast]

theorem items_of_end (h : lexer.rest = []) : lexer.items = [] := by
  rw [items_eq, next_eq, h]
  cases lexer.stopped <;> rfl

/-- **A lexer cuts what it has still to read.** -/
theorem cut_items (hstopped : lexer.stopped = false) {before : List Char}
    (hposition : lexer.position = ({} : Position).advance before) :
    ∃ pieces, Cut before lexer.rest pieces lexer.items := by
  -- the text that is left gets shorter with every lexeme
  induction hlength : lexer.rest.length using Nat.strong_induction_on generalizing lexer before with
  | _ length ih =>
    subst hlength
    have hplace (stretch : List Char) : lexer.position.across stretch = .behind before stretch := by
      rw [hposition, Position.across_advance]
    -- behind a lexeme the cut goes on
    have hmore (lexeme : Lexeme) (rest : List Char)
        (h : Lexeme.first? lexer.rest = some (lexeme, rest)) :
        ∃ pieces, Cut (before ++ lexeme.text) rest pieces (lexer.skip lexeme rest).items := by
      have hlt : (lexer.skip lexeme rest).rest.length < lexer.rest.length :=
        Lexeme.length_lt_of_first?_eq_some h
      refine @ih _ hlt (lexer.skip lexeme rest) hstopped _ ?_ rfl
      change lexer.position.advance lexeme.text = _
      rw [hposition, Position.advance_append]
    cases hfirst : Lexeme.first? lexer.rest with
    | none =>
      have hend := Lexeme.first?_eq_none_iff.mp hfirst
      rw [items_of_end hend, hend]
      exact ⟨[], .done⟩
    | some found =>
      obtain ⟨lexeme, rest⟩ := found
      have hwhole := (Lexeme.first?_splits hfirst).2
      rcases Lexeme.first?_cases hfirst with hproper | ⟨cause, bad, rfl, hoffends, hunfit⟩
      · obtain ⟨pieces, hpieces⟩ := hmore lexeme rest hfirst
        cases lexeme with
        | token =>
          rw [items_of_token hstopped hfirst, hplace, ← hwhole]
          rw [← hwhole] at hproper
          exact ⟨_, Cut.ofLexeme hproper hpieces⟩
        | blank =>
          rw [items_of_blank hstopped hfirst, ← hwhole]
          rw [← hwhole] at hproper
          exact ⟨_, .skip hproper hpieces⟩
        | faulty => exact hproper.elim
      · rw [items_of_faulty hstopped hfirst, hplace, ← hwhole]
        rw [← hwhole] at hunfit
        exact ⟨[], .fault hoffends hunfit⟩

end Lexer

/-- The tokens of a program cut its text. -/
theorem cut_tokenize (source : String) :
    ∃ pieces, Cut [] (Text.expandTabsFrom 0 source.toList) pieces (tokenize source) :=
  Lexer.cut_items (show (Lexer.ofSource source).stopped = false from rfl) rfl

/-! ### What a cut says about its items -/

namespace Item

/-- The place of a token or of an error. -/
def location? : Item → Option Location
  | .ok token => some token.location
  | .error error => error.location

/-- An item is about a stretch of text at a place: it is the token that is written there, or the
error that blames it. -/
def Marks (location : Location) (stretch : List Char) : Item → Prop
  | .ok token =>
    token.location = location ∧ token.value.toList = stretch ∧ token.kind.Spells stretch
  | .error error => error.location = some location ∧ Offends error.cause stretch

/-- An item ends before another one starts. -/
def Precedes (first second : Item) : Prop :=
  ∃ a ∈ first.location?, ∃ b ∈ second.location?, a.Precedes b

theorem Marks.location?_eq {location : Location} {stretch : List Char} {item : Item}
    (h : item.Marks location stretch) : item.location? = some location := by
  cases item with
  | ok => exact congrArg some h.1
  | error => exact h.1

end Item

theorem Offends.ne_nil (h : Offends cause bad) : bad ≠ [] := by
  cases h <;> exact cons_ne_nil _ _

/-- A line break is never blamed, since it is a blank. -/
theorem Offends.newline_not_mem (h : Offends cause bad) (unfit : ¬Fits (bad ++ rest)) :
    '\n' ∉ bad := by
  cases h with
  | comment | quote => decide
  | character =>
    intro hmem
    obtain rfl := mem_singleton.mp hmem
    refine unfit (.inr ⟨['\n'], .blanks (cons_ne_nil _ _) ?_, rest, rfl⟩)
    exact forall_mem_singleton.mpr (by decide)

namespace Cut

variable {before text : List Char} {pieces : List Piece} {items : List Item}

section

variable (h : Cut before text pieces items)
include h

/-- Each item is about a stretch of the text, and has its place. -/
theorem marks_of_mem {item : Item} (hitem : item ∈ items) :
    ∃ between stretch rest, text = between ++ (stretch ++ rest) ∧ '\n' ∉ stretch ∧ stretch ≠ [] ∧
      item.Marks (.behind (before ++ between) stretch) stretch := by
  -- along the cut, what is between the start and the item grows by one piece
  induction h with
  | done => cases hitem
  | @token before rest token pieces items longest located more ih =>
    rcases mem_cons.mp hitem with rfl | hitem
    · refine ⟨[], token.value.toList, rest, rfl, longest.1.newline_not_mem, longest.1.ne_nil, ?_⟩
      rw [append_nil]
      exact ⟨located, rfl, longest.1⟩
    · obtain ⟨between, stretch, behind, rfl, hline, hne, hmarks⟩ := ih hitem
      rw [append_assoc] at hmarks
      exact ⟨token.value.toList ++ between, stretch, behind, (append_assoc _ _ _).symm,
        hline, hne, hmarks⟩
  | @skip before skipped rest pieces items longest more ih =>
    obtain ⟨between, stretch, behind, rfl, hline, hne, hmarks⟩ := ih hitem
    rw [append_assoc] at hmarks
    exact ⟨skipped ++ between, stretch, behind, (append_assoc _ _ _).symm, hline, hne, hmarks⟩
  | @fault before bad rest cause offends unfit =>
    obtain rfl := mem_singleton.mp hitem
    refine ⟨[], bad, rest, rfl, offends.newline_not_mem unfit, offends.ne_nil, ?_⟩
    rw [append_nil]
    exact ⟨rfl, offends⟩

/-- The items stand one behind the other. -/
theorem pairwise_precedes : items.Pairwise Item.Precedes := by
  induction h with
  | done => exact .nil
  | @token before rest token pieces items longest located more ih =>
    refine .cons ?_ ih
    intro item hitem
    obtain ⟨between, stretch, behind, -, -, -, hmarks⟩ := more.marks_of_mem hitem
    refine ⟨token.location, rfl, _, hmarks.location?_eq, ?_⟩
    rw [located]
    exact Location.precedes_behind longest.1.newline_not_mem longest.1.ne_nil _ _ _
  | skip longest more ih => exact ih
  | fault => exact pairwise_singleton _ _

/-- The pieces are the text, up to an error if there is one. -/
theorem covers : ∃ rest, pieces.flatMap Piece.text ++ rest = text ∧
      (rest = [] ↔ ∀ error, Except.error error ∉ items) := by
  induction h with
  | done => exact ⟨[], rfl, by simp⟩
  | @token before rest token pieces items longest located more ih =>
    obtain ⟨left, hwhole, hleft⟩ := ih
    refine ⟨left, ?_, by simpa using hleft⟩
    rw [flatMap_cons, append_assoc, hwhole]
    rfl
  | @skip before skipped rest pieces items longest more ih =>
    obtain ⟨left, hwhole, hleft⟩ := ih
    refine ⟨left, ?_, hleft⟩
    rw [flatMap_cons, append_assoc, hwhole]
    rfl
  | @fault before bad rest cause offends unfit =>
    refine ⟨bad ++ rest, rfl, ?_⟩
    have hne := offends.ne_nil
    simp [hne]

end

end Cut

/-! ### Lexing a token again -/

namespace Text

theorem tab_not_mem_expandTabsFrom (column : Nat) (text : List Char) :
    '\t' ∉ expandTabsFrom column text := by
  induction text generalizing column with
  | nil => exact not_mem_nil
  | cons c text ih =>
    by_cases hc : c = '\t'
    · subst hc
      rw [expandTabsFrom_tab, mem_append, mem_replicate]
      rintro (⟨-, hspace⟩ | hmem)
      · exact absurd hspace (by decide)
      · exact ih _ hmem
    · rw [expandTabsFrom_cons hc]
      exact not_mem_cons_of_ne_of_not_mem (Ne.symm hc) (ih _)

theorem expandTabsFrom_of_tab_not_mem {text : List Char} (h : '\t' ∉ text) (column : Nat) :
    expandTabsFrom column text = text := by
  induction text generalizing column with
  | nil => rfl
  | cons c text ih =>
    have hc : c ≠ '\t' := (ne_of_not_mem_cons h).symm
    rw [expandTabsFrom_cons hc, ih (not_mem_of_not_mem_cons h)]

end Text

namespace Lexer

/-- What a lexer yields when it is asked once more after a number of times. -/
def answer : Nat → Lexer → Option Item
  | 0, lexer => lexer.next.1
  | n + 1, lexer => lexer.next.2.answer n

/-- A lexer that has nothing to yield stays as it is. -/
theorem items_of_next_eq_none {lexer lexer' : Lexer} (h : lexer.next = (none, lexer')) :
    lexer'.items = [] := by
  fun_induction next lexer with
  | case1 lexer hstopped =>
    cases h
    exact items_of_stopped hstopped
  | case2 lexer hstopped hfirst =>
    cases h
    exact items_of_end (Lexeme.first?_eq_none_iff.mp hfirst)
  | case3 lexer hstopped text rest hfirst ih => exact ih h
  | case4 | case5 => cases h

/-- The answers are the items, one after the other, and then nothing for ever. -/
theorem answer_eq_getElem? (n : Nat) (lexer : Lexer) : lexer.answer n = lexer.items[n]? := by
  induction n generalizing lexer with
  | zero =>
    change lexer.next.1 = _
    rw [items_eq]
    rcases lexer.next with ⟨_ | item, rest⟩ <;> rfl
  | succ n ih =>
    change lexer.next.2.answer n = _
    rw [ih, items_eq lexer]
    rcases hnext : lexer.next with ⟨_ | item, rest⟩
    · change rest.items[n]? = none
      rw [items_of_next_eq_none hnext]
      rfl
    · rfl

end Lexer

end FrontEnd
