import FrontEnd.Token.Lexeme
import Mathlib.Data.List.TakeWhile

/-!
# How lexemes are spelled

What the texts of tokens look like (`Token.Kind.Spells`), and what may stand between tokens
(`Skippable`), both said without the rules that cut a text into lexemes.

The rules agree with this. A lexeme is spelled as its sort says, or it is faulty and nothing that
could stand in a program is in front of the text (`first?_cases`). A token is the longest one of its
kind (`Token.Kind.Longest`), nothing longer could be left out in the place of what is left out
(`Skippable.Longest`), and a text that spells a token is that token as a whole
(`first?_append_of_spells`).
-/

namespace FrontEnd

open List

open Lexeme (operatorMarks inString)

/-- The texts of the tokens of a kind. -/
def Token.Kind.Spells : Token.Kind → List Char → Prop
  | .integer, text => text ≠ [] ∧ ∀ c ∈ text, c.isDigit = true
  | .operator, text => text = ['-', '>'] ∨ text = ['\x27', 's'] ∨
      ∃ c ∈ ['(', ')', '\x7b', '\x7d', '[', ']', ';', ',', '=', '.'], text = [c]
  | .name, text => ∃ first more, text = first :: more ∧ Text.isWordStart first = true ∧
      ∀ c ∈ more, Text.isWord c = true
  | .string, text => ∃ inner, text = '"' :: (inner ++ ['"']) ∧ ∀ c ∈ inner, c ≠ '"' ∧ c ≠ '\n'

/-- A token of a kind in front of a text that is not shorter than any other of that kind. -/
def Token.Kind.Longest (kind : Token.Kind) (text front : List Char) : Prop :=
  kind.Spells front ∧ ∀ other, kind.Spells other → other <+: text → other.length ≤ front.length

/-- A stretch between tokens: white space, a comment to the end of the line, or a comment that is
closed, and not before its end. -/
inductive Skippable : List Char → Prop
  | blanks {text : List Char} (ne_nil : text ≠ []) (blank : ∀ c ∈ text, Text.isBlank c = true) :
      Skippable text
  | lineComment {text : List Char} (line : '\n' ∉ text) : Skippable ('/' :: '/' :: text)
  | blockComment {text : List Char} (open_ : ¬['*', '/'] <:+: text ++ ['*']) :
      Skippable ('/' :: '*' :: (text ++ ['*', '/']))

/-- A stretch to be left out in front of a text that is not shorter than any other. -/
def Skippable.Longest (text front : List Char) : Prop :=
  Skippable front ∧ ∀ other, Skippable other → other <+: text → other.length ≤ front.length

/-- The stretch that an error is about: the start of a comment or a string without an end, or a
single character. -/
inductive Offends : Cause → List Char → Prop
  | comment : Offends .unterminatedComment ['/', '*']
  | quote : Offends .unterminatedString ['"']
  | character (c : Char) : Offends (.unknownCharacter c) [c]

/-- Something that is spelled properly stands in front of a text. -/
def Fits (text : List Char) : Prop :=
  (∃ kind front, Token.Kind.Spells kind front ∧ front <+: text) ∨
    ∃ front, Skippable front ∧ front <+: text

/-! ### Characters -/

namespace Text

variable {c : Char}

theorem CodeRange.covers_cons_of_le {first last code : Nat} (hfirst : first ≤ code)
    (hlast : code ≤ last) (ranges : List CodeRange) :
    CodeRange.covers ((first, last) :: ranges) code = true := by
  rw [CodeRange.covers, if_neg (Nat.not_lt.mpr hfirst), decide_eq_true hlast, Bool.true_or]

/-- The digits are the first range of the decimals and of the characters of words. -/
theorem range_of_isDigit (h : c.isDigit = true) : 0x30 ≤ c.toNat ∧ c.toNat ≤ 0x39 := by
  simp only [Char.isDigit, Bool.and_eq_true, decide_eq_true_eq] at h
  exact h

theorem isDecimal_of_isDigit (h : c.isDigit = true) : isDecimal c = true :=
  CodeRange.covers_cons_of_le (range_of_isDigit h).1 (range_of_isDigit h).2 _

theorem isWord_of_isDigit (h : c.isDigit = true) : isWord c = true :=
  CodeRange.covers_cons_of_le (range_of_isDigit h).1 (range_of_isDigit h).2 _

/-- No digit starts a word. -/
theorem not_isDigit_of_isWordStart (h : isWordStart c = true) : c.isDigit = false := by
  cases hdigit : c.isDigit with
  | false => rfl
  | true =>
    rw [isWordStart, isDecimal_of_isDigit hdigit, Bool.not_true, Bool.and_false] at h
    cases h

theorem not_isBlank_of_isWord (h : isWord c = true) : isBlank c = false := by
  have hapart : ∀ word ∈ wordRanges, ∀ blank ∈ blankRanges, word.2 < blank.1 ∨
      blank.2 < word.1 := by
    decide +kernel
  refine Bool.eq_false_iff.mpr fun hblank => ?_
  obtain ⟨word, hword, hfirst, hlast⟩ := CodeRange.exists_of_covers h
  obtain ⟨blank, hmem, hge, hle⟩ := CodeRange.exists_of_covers hblank
  rcases hapart word hword blank hmem with hlt | hlt <;> omega

theorem not_isBlank_of_isDigit (h : c.isDigit = true) : isBlank c = false :=
  not_isBlank_of_isWord (isWord_of_isDigit h)

end Text

/-- An operator starts no word and is no digit. -/
theorem operatorMarks_spec {c : Char} (h : c ∈ operatorMarks) :
    c.isDigit = false ∧ Text.isWordStart c = false ∧ c ≠ '-' ∧ c ≠ '\x27' ∧ c ≠ '\n' := by
  have hall : operatorMarks.all (fun c => decide (c.isDigit = false ∧ Text.isWordStart c = false ∧
      c ≠ '-' ∧ c ≠ '\x27' ∧ c ≠ '\n')) = true := by decide
  exact of_decide_eq_true (all_eq_true.mp hall c h)

namespace Token.Kind

variable {kind : Kind} {text : List Char}

/-- No token is empty. -/
theorem Spells.ne_nil (h : kind.Spells text) : text ≠ [] := by
  cases kind with
  | integer => exact h.1
  | name =>
    obtain ⟨first, more, rfl, -⟩ := h
    exact cons_ne_nil _ _
  | string =>
    obtain ⟨inner, rfl, -⟩ := h
    exact cons_ne_nil _ _
  | operator =>
    rcases h with rfl | rfl | ⟨c, -, rfl⟩ <;> exact cons_ne_nil _ _

/-- No token has a line break in it. -/
theorem Spells.newline_not_mem (h : kind.Spells text) : '\n' ∉ text := by
  intro hmem
  cases kind with
  | integer => exact absurd (h.2 _ hmem) (by decide)
  | name =>
    obtain ⟨first, more, rfl, hfirst, hmore⟩ := h
    rcases mem_cons.mp hmem with rfl | hmem
    · exact absurd hfirst (by decide)
    · exact absurd (hmore _ hmem) (by decide)
  | string =>
    obtain ⟨inner, rfl, hinner⟩ := h
    -- both quotes are other characters
    have hin : '\n' ∈ inner := by simpa using hmem
    exact (hinner _ hin).2 rfl
  | operator =>
    rcases h with rfl | rfl | ⟨c, hc, rfl⟩
    · simp at hmem
    · simp at hmem
    · exact (operatorMarks_spec hc).2.2.2.2 (mem_singleton.mp hmem).symm

end Token.Kind

theorem Skippable.ne_nil {text : List Char} (h : Skippable text) : text ≠ [] := by
  cases h with
  | blanks ne_nil => exact ne_nil
  | lineComment | blockComment => exact cons_ne_nil _ _

namespace Lexeme

variable {belongs : Char → Bool} {make : List Char → Lexeme} {text rest front : List Char}
  {lexeme : Lexeme} {c : Char} {kind : Token.Kind}

/-- A lexeme in front of a text that is part of a program and spelled as its sort says. -/
def Proper (text : List Char) : Lexeme → Prop
  | token kind front => kind.Longest text front
  | blank front => Skippable.Longest text front
  | faulty _ _ => False

/-! ### What the rules give -/

/-- A run is the whole stretch of characters of its class. -/
theorem run_eq_some (h : run belongs make text = some (lexeme, rest)) :
    text.takeWhile belongs ≠ [] ∧ lexeme = make (text.takeWhile belongs) := by
  unfold run at h
  split at h
  · cases h
  · next c front hfront =>
    cases h
    rw [hfront]
    exact ⟨cons_ne_nil _ _, rfl⟩

/-- No stretch of characters of a class in front of a text is longer than the run. -/
theorem length_le_takeWhile (hfront : ∀ c ∈ front, belongs c = true) (h : front <+: text) :
    front.length ≤ (text.takeWhile belongs).length := by
  obtain ⟨rest, rfl⟩ := h
  rw [takeWhile_append_of_pos hfront, length_append]
  exact Nat.le_add_right _ _

theorem integer_proper (h : run Char.isDigit (token .integer) text = some (lexeme, rest)) :
    lexeme.Proper text := by
  obtain ⟨hne, rfl⟩ := run_eq_some h
  refine ⟨⟨hne, fun c hc => mem_takeWhile_imp hc⟩, ?_⟩
  intro other hother hfront
  exact length_le_takeWhile hother.2 hfront

theorem blank_proper (h : run Text.isBlank blank text = some (lexeme, rest)) :
    lexeme.Proper text := by
  obtain ⟨hne, rfl⟩ := run_eq_some h
  refine ⟨.blanks hne fun c hc => mem_takeWhile_imp hc, ?_⟩
  intro other hother hfront
  cases hother with
  | blanks _ hall => exact length_le_takeWhile hall hfront
  | lineComment | blockComment =>
    -- a slash is no blank
    obtain ⟨behind, rfl⟩ := hfront
    exact absurd (takeWhile_cons_of_neg (by decide)) hne

/-- Operators have one character or two. -/
theorem length_le_two_of_spells (h : Token.Kind.Spells .operator text) : text.length ≤ 2 := by
  rcases h with rfl | rfl | ⟨c, -, rfl⟩ <;> simp

theorem operator_proper (h : operator text = some (lexeme, rest)) : lexeme.Proper text := by
  unfold operator at h
  split at h
  · cases h
    exact ⟨.inl rfl, fun other hother _ => length_le_two_of_spells hother⟩
  · cases h
    exact ⟨.inr (.inl rfl), fun other hother _ => length_le_two_of_spells hother⟩
  · split at h
    · next c _ _ _ hc =>
      cases h
      refine ⟨.inr (.inr ⟨c, hc, rfl⟩), fun other hother hfront => ?_⟩
      -- a mark starts none of the longer operators
      obtain ⟨-, -, hdash, hquote, -⟩ := operatorMarks_spec hc
      rcases hother with rfl | rfl | ⟨d, -, rfl⟩
      · exact absurd (List.cons_prefix_cons.mp hfront).1.symm hdash
      · exact absurd (List.cons_prefix_cons.mp hfront).1.symm hquote
      · exact Nat.le_refl _
    · cases h
  · cases h

theorem name_proper (h : name text = some (lexeme, rest)) : lexeme.Proper text := by
  unfold name at h
  split at h
  · next c more =>
    split at h
    · next hc =>
      cases h
      refine ⟨⟨c, _, rfl, hc, fun d hd => mem_takeWhile_imp hd⟩, ?_⟩
      rintro _ ⟨d, others, rfl, -, hothers⟩ hfront
      have hle := length_le_takeWhile hothers (List.cons_prefix_cons.mp hfront).2
      simpa using hle
    · cases h
  · cases h

theorem inString_iff : inString c = true ↔ c ≠ '"' ∧ c ≠ '\n' := by
  simp [inString]

theorem string_proper (h : string text = some (lexeme, rest)) : lexeme.Proper text := by
  unfold string at h
  split at h
  · split at h
    · cases h
      refine ⟨⟨_, rfl, fun c hc => inString_iff.mp (mem_takeWhile_imp hc)⟩, ?_⟩
      rintro _ ⟨inner, rfl, hinner⟩ hfront
      have hinside := (List.prefix_append inner ['"']).trans (List.cons_prefix_cons.mp hfront).2
      have hle := length_le_takeWhile (fun c hc => inString_iff.mpr (hinner c hc)) hinside
      simpa using hle
    · cases h
  · cases h

theorem not_prefix_slash_of_isBlank (hne : front ≠ []) (hall : ∀ c ∈ front, Text.isBlank c = true) :
    ¬front <+: '/' :: text := by
  obtain ⟨c, more, rfl⟩ := exists_cons_of_ne_nil hne
  intro hfront
  obtain rfl := (List.cons_prefix_cons.mp hfront).1
  exact absurd (hall _ mem_cons_self) (by decide)

theorem lineComment_proper (h : lineComment text = some (lexeme, rest)) : lexeme.Proper text := by
  unfold lineComment at h
  split at h
  · cases h
    refine ⟨.lineComment fun hmem => ?_, fun other hother hfront => ?_⟩
    · have hother := mem_takeWhile_imp hmem
      simp at hother
    · cases hother with
      | blanks hne hall => exact absurd hfront (not_prefix_slash_of_isBlank hne hall)
      | @lineComment inner hline =>
        have hinner : ∀ c ∈ inner, decide (c ≠ '\n') = true :=
          fun c hc => decide_eq_true (ne_of_mem_of_not_mem hc hline)
        have hbehind := (List.cons_prefix_cons.mp (List.cons_prefix_cons.mp hfront).2).2
        have hle := length_le_takeWhile hinner hbehind
        simpa using hle
      | blockComment =>
        exact absurd (List.cons_prefix_cons.mp (List.cons_prefix_cons.mp hfront).2).1 (by decide)
  · cases h

/-- A comment is cut behind its first end. -/
theorem splitComment_eq_some (h : splitComment text = some (front, rest)) :
    ∃ inner, front = inner ++ ['*', '/'] ∧ ¬['*', '/'] <:+: inner ++ ['*'] := by
  induction text generalizing front rest with
  | nil => cases h
  | cons c text ih =>
    unfold splitComment at h
    split at h
    · next heq => cases heq
    · cases h
      refine ⟨[], rfl, ?_⟩
      decide
    · next c' text' hnot heq =>
      cases heq
      obtain ⟨⟨inner, behind⟩, hsplit, heq⟩ := Option.map_eq_some_iff.mp h
      cases heq
      obtain ⟨more, rfl, hmore⟩ := ih hsplit
      refine ⟨c :: more, rfl, fun hinfix => ?_⟩
      rw [cons_append, infix_cons_iff] at hinfix
      rcases hinfix with hfront | hinfix
      · -- an end right in front would have been found first
        rw [List.cons_prefix_cons] at hfront
        obtain ⟨rfl, hslash⟩ := hfront
        cases more with
        | nil => simp at hslash
        | cons d =>
          obtain rfl : '/' = d := by simpa using hslash
          exact hnot _ rfl (splitComment_append hsplit).symm
      · exact hmore hinfix

/-- Of two comments that are closed in one text, none ends behind the first end of the other. -/
theorem length_le_of_open {inner other : List Char} (hother : ¬['*', '/'] <:+: other ++ ['*'])
    (hinner : inner ++ ['*', '/'] <+: text) (h : other ++ ['*', '/'] <+: text) :
    other.length ≤ inner.length := by
  by_contra hlt
  have hopen : other ++ ['*'] <+: other ++ ['*', '/'] := ⟨['/'], by simp⟩
  have hfront : inner ++ ['*', '/'] <+: other ++ ['*'] := by
    refine List.prefix_of_prefix_length_le hinner (hopen.trans h) ?_
    simp only [length_append, length_cons, length_nil]
    omega
  exact hother (((List.suffix_append inner _).isInfix).trans hfront.isInfix)

theorem blockComment_proper (h : blockComment text = some (lexeme, rest)) : lexeme.Proper text := by
  unfold blockComment at h
  split at h
  · obtain ⟨⟨front, behind⟩, hsplit, heq⟩ := Option.map_eq_some_iff.mp h
    cases heq
    obtain ⟨inner, rfl, hinner⟩ := splitComment_eq_some hsplit
    refine ⟨.blockComment hinner, fun other hother hfront => ?_⟩
    cases hother with
    | blanks hne hall => exact absurd hfront (not_prefix_slash_of_isBlank hne hall)
    | lineComment =>
      exact absurd (List.cons_prefix_cons.mp (List.cons_prefix_cons.mp hfront).2).1 (by decide)
    | blockComment hopen =>
      have hbehind := (List.cons_prefix_cons.mp (List.cons_prefix_cons.mp hfront).2).2
      have hle := length_le_of_open hopen ⟨_, splitComment_append hsplit⟩ hbehind
      simpa using hle
  · cases h

/-- All rules but the last one give what is part of a program. -/
theorem proper_of_mem_rules {rule : Rule} (hrule : rule ∈ rules.dropLast)
    (h : rule text = some (lexeme, rest)) :
    lexeme.Proper text := by
  simp only [rules, List.dropLast, mem_cons, not_mem_nil, or_false] at hrule
  rcases hrule with rfl | rfl | rfl | rfl | rfl | rfl | rfl
  · exact integer_proper h
  · exact operator_proper h
  · exact name_proper h
  · exact string_proper h
  · exact blank_proper h
  · exact lineComment_proper h
  · exact blockComment_proper h

/-- The last rule blames the start of what is in front of the text. -/
theorem offends_of_fault (h : fault text = some (lexeme, rest)) :
    ∃ cause bad, lexeme = faulty cause bad ∧ Offends cause bad := by
  unfold fault at h
  split at h
  · cases h
    exact ⟨_, _, rfl, .comment⟩
  · cases h
    exact ⟨_, _, rfl, .quote⟩
  · cases h
    exact ⟨_, _, rfl, .character _⟩
  · cases h

/-! ### Where the rules apply -/

theorem head_of_run_eq_none (h : run belongs make (c :: text) = none) : belongs c = false := by
  cases hc : belongs c with
  | false => rfl
  | true =>
    rw [run, takeWhile_cons_of_pos hc] at h
    cases h

/-- A comment with an end is cut somewhere. -/
theorem splitComment_ne_none (inner rest : List Char) :
    splitComment (inner ++ '*' :: '/' :: rest) ≠ none := by
  induction inner with
  | nil => simp [splitComment]
  | cons c inner ih =>
    rw [cons_append]
    unfold splitComment
    split
    · next heq => cases heq
    · simp
    · next heq =>
      cases heq
      simpa using ih

/-- What a stretch of characters of a class leaves of a text that goes on with another character. -/
theorem dropWhile_append_cons (hfront : ∀ d ∈ front, belongs d = true) (hc : belongs c = false) :
    (front ++ c :: rest).dropWhile belongs = c :: rest := by
  rw [dropWhile_append_of_pos hfront, dropWhile_cons_of_neg (by simp [hc])]

/-- No token stands in front of a text that only the last rule applies to. -/
theorem not_spells_of_eq_none (h : ∀ rule ∈ rules.dropLast, rule text = none)
    (hspells : kind.Spells front) :
    ¬front <+: text := by
  rintro ⟨rest, rfl⟩
  cases kind with
  -- each kind has a rule of its own that would have matched
  | integer =>
    obtain ⟨hne, hall⟩ := hspells
    obtain ⟨c, more, rfl⟩ := exists_cons_of_ne_nil hne
    have hnone := h (run Char.isDigit (token .integer)) (by simp [rules])
    rw [cons_append] at hnone
    have hdigit := hall c mem_cons_self
    rw [head_of_run_eq_none hnone] at hdigit
    cases hdigit
  | name =>
    obtain ⟨c, more, rfl, hc, -⟩ := hspells
    have hnone := h name (by simp [rules])
    simp [name, hc] at hnone
  | string =>
    obtain ⟨inner, rfl, hinner⟩ := hspells
    have hnone := h string (by simp [rules])
    simp only [cons_append, append_assoc, nil_append, string] at hnone
    rw [dropWhile_append_cons (fun c hc => inString_iff.mpr (hinner c hc)) (by decide)] at hnone
    cases hnone
  | operator =>
    have hnone := h operator (by simp [rules])
    rcases hspells with rfl | rfl | ⟨c, hc, rfl⟩
    · cases hnone
    · cases hnone
    · obtain ⟨-, -, hdash, hquote, -⟩ := operatorMarks_spec hc
      unfold operator at hnone
      split at hnone
      · cases hnone
      · cases hnone
      · next heq =>
        cases heq
        rw [if_pos (show c ∈ operatorMarks from hc)] at hnone
        cases hnone
      · next heq => cases heq

/-- Nor does anything that is left out between tokens. -/
theorem not_skippable_of_eq_none (h : ∀ rule ∈ rules.dropLast, rule text = none)
    (hskip : Skippable front) :
    ¬front <+: text := by
  rintro ⟨rest, rfl⟩
  cases hskip with
  | blanks hne hall =>
    obtain ⟨c, more, rfl⟩ := exists_cons_of_ne_nil hne
    have hnone := h (run Text.isBlank blank) (by simp [rules])
    rw [cons_append] at hnone
    have hblank := hall c mem_cons_self
    rw [head_of_run_eq_none hnone] at hblank
    cases hblank
  | lineComment =>
    have hnone := h lineComment (by simp [rules])
    cases hnone
  | @blockComment inner =>
    have hnone := h blockComment (by simp [rules])
    simp only [cons_append, append_assoc, nil_append, blockComment, Option.map_eq_none_iff] at hnone
    exact splitComment_ne_none inner rest hnone

/-! ### The first lexeme -/

theorem first?_eq_or (text : List Char) :
    first? text = (rules.dropLast.findSome? (· text)).or (fault text) := by
  have hrules : first? text = (rules.dropLast ++ [fault]).findSome? (· text) := rfl
  rw [hrules, findSome?_append, findSome?_singleton]

/-- **What the first lexeme of a text is**: a part of the program, or the start of something that is
none. -/
theorem first?_cases (h : first? text = some (lexeme, rest)) : lexeme.Proper text ∨
      ∃ cause bad, lexeme = faulty cause bad ∧ Offends cause bad ∧ ¬Fits text := by
  rw [first?_eq_or, Option.or_eq_some_iff] at h
  rcases h with h | ⟨hnone, hfault⟩
  · obtain ⟨rule, hrule, hsome⟩ := exists_of_findSome?_eq_some h
    exact .inl (proper_of_mem_rules hrule hsome)
  · have hall := findSome?_eq_none_iff.mp hnone
    obtain ⟨cause, bad, rfl, hoffends⟩ := offends_of_fault hfault
    refine .inr ⟨cause, bad, rfl, hoffends, ?_⟩
    rintro (⟨kind, front, hspells, hfront⟩ | ⟨front, hskip, hfront⟩)
    · exact not_spells_of_eq_none hall hspells hfront
    · exact not_skippable_of_eq_none hall hskip hfront

theorem run_eq_none (hc : belongs c = false) : run belongs make (c :: text) = none := by
  rw [run, takeWhile_cons_of_neg (by simp [hc])]

theorem operator_eq_none (hdash : c ≠ '-') (hquote : c ≠ '\x27') (hmark : c ∉ operatorMarks) :
    operator (c :: text) = none := by
  unfold operator
  split
  · next heq => exact absurd (cons.inj heq).1 hdash
  · next heq => exact absurd (cons.inj heq).1 hquote
  · next heq =>
    cases heq
    exact if_neg hmark
  · rfl

/-- Operators and words start differently. -/
theorem operator_eq_none_of_isWordStart (hc : Text.isWordStart c = true) :
    operator (c :: text) = none := by
  refine operator_eq_none ?_ ?_ ?_
  · rintro rfl
    exact absurd hc (by decide)
  · rintro rfl
    exact absurd hc (by decide)
  · intro hmark
    rw [(operatorMarks_spec hmark).2.1] at hc
    cases hc

theorem operator_append_of_spells (h : Token.Kind.Spells .operator text) (rest : List Char) :
    operator (text ++ rest) = some (token .operator text, rest) := by
  rcases h with rfl | rfl | ⟨c, hc, rfl⟩
  · rfl
  · rfl
  · obtain ⟨-, -, hdash, hquote, -⟩ := operatorMarks_spec hc
    rw [singleton_append]
    unfold operator
    split
    · next heq => exact absurd (cons.inj heq).1 hdash
    · next heq => exact absurd (cons.inj heq).1 hquote
    · next heq =>
      cases heq
      exact if_pos hc
    · next heq => cases heq

/-- A stretch of characters of a class ends where a text goes on with another character, or not at
all. -/
theorem takeWhile_append_of_head (hfront : ∀ d ∈ front, belongs d = true)
    (hrest : ∀ c ∈ rest.head?, belongs c = false) :
    (front ++ rest).takeWhile belongs = front ∧ (front ++ rest).dropWhile belongs = rest := by
  rw [takeWhile_append_of_pos hfront, dropWhile_append_of_pos hfront]
  cases rest with
  | nil => simp
  | cons c =>
    have hc : ¬belongs c = true := by simp [hrest c rfl]
    rw [takeWhile_cons_of_neg hc, dropWhile_cons_of_neg hc]
    exact ⟨append_nil _, rfl⟩

/-- **A text that spells a token is that token**, if it goes on with nothing that could be part of a
word. No rule that is tried before applies, and the token takes all of the text. -/
theorem first?_append_of_spells (h : kind.Spells text)
    (hrest : ∀ c ∈ rest.head?, Text.isWord c = false) :
    first? (text ++ rest) = some (token kind text, rest) := by
  cases kind with
  -- the rules are tried in order: those before the right one do not match
  | integer =>
    obtain ⟨hne, hall⟩ := h
    obtain ⟨c, more, rfl⟩ := exists_cons_of_ne_nil hne
    have hbehind : ∀ d ∈ rest.head?, d.isDigit = false := fun d hd =>
      Bool.eq_false_iff.mpr fun hdigit =>
        absurd (Text.isWord_of_isDigit hdigit) (by simp [hrest d hd])
    obtain ⟨htake, hdrop⟩ := takeWhile_append_of_head hall hbehind
    have hrun : run Char.isDigit (token .integer) (c :: more ++ rest) =
        some (token .integer (c :: more), rest) := by
      rw [run, htake, hdrop]
    simp only [first?, rules, findSome?_cons, hrun]
  | operator =>
    have hrun : run Char.isDigit (token .integer) (text ++ rest) = none := by
      rcases h with rfl | rfl | ⟨c, hc, rfl⟩
      · exact run_eq_none (by decide)
      · exact run_eq_none (by decide)
      · exact run_eq_none (operatorMarks_spec hc).1
    simp only [first?, rules, findSome?_cons, hrun, operator_append_of_spells h]
  | name =>
    obtain ⟨c, more, rfl, hc, hmore⟩ := h
    rw [cons_append]
    have hrun : run Char.isDigit (token .integer) (c :: (more ++ rest)) = none :=
      run_eq_none (Text.not_isDigit_of_isWordStart hc)
    have hname : name (c :: (more ++ rest)) = some (token .name (c :: more), rest) := by
      obtain ⟨htake, hdrop⟩ := takeWhile_append_of_head hmore hrest
      rw [name, if_pos hc, htake, hdrop]
    simp only [first?, rules, findSome?_cons, hrun, operator_eq_none_of_isWordStart hc, hname]
  | string =>
    obtain ⟨inner, rfl, hinner⟩ := h
    rw [cons_append, append_assoc, singleton_append]
    have hrun : run Char.isDigit (token .integer) ('"' :: (inner ++ '"' :: rest)) = none :=
      run_eq_none (by decide)
    have hoperator : operator ('"' :: (inner ++ '"' :: rest)) = none :=
      operator_eq_none (by decide) (by decide) (by decide)
    have hname : name ('"' :: (inner ++ '"' :: rest)) = none := by
      rw [name]
      exact if_neg (by decide)
    have hstring :
        string ('"' :: (inner ++ '"' :: rest)) =
          some (token .string ('"' :: (inner ++ ['"'])), rest) := by
      obtain ⟨htake, hdrop⟩ :=
        takeWhile_append_of_head (fun c hc => inString_iff.mpr (hinner c hc))
          (show ∀ c ∈ ('"' :: rest).head?, inString c = false by simp [inString])
      simp only [string, htake, hdrop]
    simp only [first?, rules, findSome?_cons, hrun, hoperator, hname, hstring]

end Lexeme

end FrontEnd
