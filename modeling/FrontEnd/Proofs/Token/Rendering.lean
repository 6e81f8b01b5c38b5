import FrontEnd.Proofs.Token.Partition

/-!
# Lexing undoes rendering

Words can be written down with any gaps between them: blanks, comments to the end of the line and
comments that are closed, any number of them in any order (`render`). Lexing finds the words again,
and nothing else (`tokenize_render`), as long as there is some gap between two of them.

Places do not matter here, so items are compared by what is written there (`Item.spelling`), and
what a text is spelled as does not depend on where the text starts (`map_spelling_items`). With
that, a gap in front of a text can be left out piece by piece. A lexer need not take the pieces as
they were put together: it takes blanks up to the next character that is none, and a comment to the
end of the line without the line break.

All of this happens after spaces were put in for tabs. That leaves words alone and turns gaps into
gaps.
-/

namespace FrontEnd

open List Text Lexer

variable {text front rest gap : List Char} {words : List (Word × List Char)}

/-! ### What can be written -/

/-- A word that can be written: a kind of token and a text of this kind. A string has no tab in it,
since there would be spaces in its place. -/
structure Word where
  kind : Token.Kind
  text : List Char
  spells : kind.Spells text
  untabbed : kind = .string → '\t' ∉ text

/-- A stretch that separates words: blanks, a comment with the line break at its end, or a closed
comment. -/
inductive Separates : List Char → Prop
  | blanks {text : List Char} (ne_nil : text ≠ []) (blank : ∀ c ∈ text, isBlank c = true) :
    Separates text
  | lineComment {text : List Char} (line : '\n' ∉ text) : Separates ('/' :: '/' :: (text ++ ['\n']))
  | blockComment {text : List Char} (open_ : ¬['*', '/'] <:+: text) :
    Separates ('/' :: '*' :: (text ++ ['*', '/']))

/-- Any number of such stretches. -/
inductive Gap : List Char → Prop
  | nil : Gap []
  | cons {front rest : List Char} (separates : Separates front) (more : Gap rest) :
    Gap (front ++ rest)

/-- The text that starts with a gap and goes on with words, each with the gap behind it. -/
def render (gap : List Char) : List (Word × List Char) → List Char
  | [] => gap
  | (word, behind) :: words => gap ++ (word.text ++ render behind words)

/-! ### Tabs -/

namespace Text

variable {c : Char} {column : Nat} {text : List Char}

/-- The column behind a text that starts at `column`. -/
def columnBehind (column : Nat) : List Char → Nat
  | [] => column
  | c :: text =>
    if c = '\t' then columnBehind (column + spacesToStop column) text else columnBehind
      (columnAfter column c) text

/-- Two texts one after the other. -/
theorem expandTabsFrom_append_columnBehind (column : Nat) (front back : List Char) :
    expandTabsFrom column (front ++ back) =
      expandTabsFrom column front ++ expandTabsFrom (columnBehind column front) back := by
  induction front generalizing column with
  | nil => rfl
  | cons c front ih =>
    by_cases hc : c = '\t'
    · subst hc
      rw [cons_append, expandTabsFrom_tab, ih, expandTabsFrom_tab, append_assoc,
        columnBehind, if_pos rfl]
    · rw [cons_append, expandTabsFrom_cons hc, ih, expandTabsFrom_cons hc, cons_append,
        columnBehind, if_neg hc]

/-- Only spaces are new. -/
theorem mem_or_eq_space_of_mem_expandTabsFrom (h : c ∈ expandTabsFrom column text) :
    c = ' ' ∨ c ∈ text := by
  induction text generalizing column with
  | nil => cases h
  | cons d text ih =>
    by_cases hd : d = '\t'
    · subst hd
      rw [expandTabsFrom_tab, mem_append, mem_replicate] at h
      rcases h with ⟨-, rfl⟩ | h
      · exact .inl rfl
      · exact (ih h).imp_right (mem_cons_of_mem _)
    · rw [expandTabsFrom_cons hd, mem_cons] at h
      rcases h with rfl | h
      · exact .inr mem_cons_self
      · exact (ih h).imp_right (mem_cons_of_mem _)

/-- What is not empty stays so. -/
theorem expandTabsFrom_ne_nil (h : text ≠ []) (column : Nat) : expandTabsFrom column text ≠ [] := by
  obtain ⟨c, text, rfl⟩ := exists_cons_of_ne_nil h
  by_cases hc : c = '\t'
  · subst hc
    have hspaces : List.replicate (spacesToStop column) ' ' ≠ [] := by
      simpa using Nat.ne_of_gt (spacesToStop_pos column)
    rw [expandTabsFrom_tab]
    exact append_ne_nil_of_left_ne_nil hspaces _
  · rw [expandTabsFrom_cons hc]
    exact cons_ne_nil _ _

/-- A character that is no space stands at the front only if it stood there before. -/
theorem head?_expandTabsFrom (hc : c ≠ ' ') (h : (expandTabsFrom column text).head? = some c) :
    text.head? = some c := by
  cases text with
  | nil => cases h
  | cons d =>
    by_cases hd : d = '\t'
    · subst hd
      obtain ⟨more, hspaces⟩ :=
        Nat.exists_eq_succ_of_ne_zero (Nat.ne_of_gt (spacesToStop_pos column))
      rw [expandTabsFrom_tab, hspaces, replicate_succ] at h
      exact absurd (Option.some.inj h).symm hc
    · rw [expandTabsFrom_cons hd] at h
      exact h

/-- Behind spaces a comment is closed where it was closed before. -/
theorem infix_of_infix_spaces {spaces : Nat}
    (h : ['*', '/'] <:+: List.replicate spaces ' ' ++ text) :
    ['*', '/'] <:+: text := by
  induction spaces with
  | zero => exact h
  | succ spaces ih =>
    rw [replicate_succ, cons_append, infix_cons_iff, List.cons_prefix_cons] at h
    rcases h with ⟨hstar, -⟩ | h
    · exact absurd hstar (by decide)
    · exact ih h

/-- No comment is closed by the spaces that are put in for tabs. -/
theorem infix_of_infix_expandTabsFrom (h : ['*', '/'] <:+: expandTabsFrom column text) :
    ['*', '/'] <:+: text := by
  induction text generalizing column with
  | nil => exact h
  | cons c text ih =>
    rw [infix_cons_iff]
    by_cases hc : c = '\t'
    · subst hc
      rw [expandTabsFrom_tab] at h
      exact .inr (ih (infix_of_infix_spaces h))
    · rw [expandTabsFrom_cons hc, infix_cons_iff, List.cons_prefix_cons] at h
      rcases h with ⟨rfl, back, hslash⟩ | h
      · -- the slash behind the star was there before
        have hhead : text.head? = some '/' :=
          head?_expandTabsFrom (by decide) (congrArg List.head? hslash).symm
        obtain ⟨more, rfl⟩ := head?_eq_some_iff.mp hhead
        exact .inl (List.prefix_append ['*', '/'] more)
      · exact .inr (ih h)

end Text

/-! ### Gaps -/

namespace Separates

variable {text : List Char}

/-- What separates words still does so with spaces for tabs. -/
theorem expandTabsFrom (h : Separates text) (column : Nat) :
    Separates (expandTabsFrom column text) := by
  cases h with
  | blanks ne_nil blank =>
    refine .blanks (expandTabsFrom_ne_nil ne_nil column) fun c hc => ?_
    rcases mem_or_eq_space_of_mem_expandTabsFrom hc with rfl | hc
    · decide
    · exact blank c hc
  | @lineComment text line =>
    rw [expandTabsFrom_cons (by decide), expandTabsFrom_cons (by decide),
      expandTabsFrom_append_columnBehind, expandTabsFrom_cons (by decide)]
    refine .lineComment fun hmem => ?_
    rcases mem_or_eq_space_of_mem_expandTabsFrom hmem with heq | hmem
    · exact absurd heq (by decide)
    · exact line hmem
  | @blockComment text open_ =>
    rw [expandTabsFrom_cons (by decide), expandTabsFrom_cons (by decide),
      expandTabsFrom_append_columnBehind, expandTabsFrom_cons (by decide),
      expandTabsFrom_cons (by decide)]
    exact .blockComment fun hinfix => open_ (infix_of_infix_expandTabsFrom hinfix)

theorem ne_nil (h : Separates text) : text ≠ [] := by
  cases h with
  | blanks ne_nil => exact ne_nil
  | lineComment | blockComment => exact cons_ne_nil _ _

/-- No word goes on with what separates words. -/
theorem head (h : Separates text) : ∀ c ∈ text.head?, isWord c = false := by
  intro c hc
  cases h with
  | blanks ne_nil blank =>
    have hblank := blank c (mem_of_mem_head? hc)
    refine Bool.eq_false_iff.mpr fun hword => ?_
    rw [not_isBlank_of_isWord hword] at hblank
    cases hblank
  | lineComment | blockComment =>
    obtain rfl := Option.some.inj hc
    decide

end Separates

namespace Gap

variable {gap : List Char}

theorem expandTabsFrom (h : Gap gap) (column : Nat) : Gap (expandTabsFrom column gap) := by
  induction h generalizing column with
  | nil => exact .nil
  | cons separates more ih =>
    rw [expandTabsFrom_append_columnBehind]
    exact .cons (separates.expandTabsFrom column) (ih _)

theorem head (h : Gap gap) : ∀ c ∈ gap.head?, isWord c = false := by
  intro c hc
  cases h with
  | nil => cases hc
  | cons separates =>
    rw [head?_append] at hc
    obtain ⟨first, rest, rfl⟩ := exists_cons_of_ne_nil separates.ne_nil
    exact separates.head c hc

end Gap

/-! ### Texts and what they spell -/

/-- What an item says without its place: the kind and the text of a token, or the cause of an
error. -/
def Item.spelling : Item → Except Cause (Token.Kind × List Char)
  | .ok token => .ok (token.kind, token.value.toList)
  | .error error => .error error.cause

/-- What a lexer finds in a text, without places. -/
def spelled (text : List Char) : List (Except Cause (Token.Kind × List Char)) :=
  ({ rest := text } : Lexer).items.map Item.spelling

/-- Where a text starts does not matter for what is found in it. -/
theorem map_spelling_items {lexer other : Lexer} (h : lexer.stopped = false)
    (h' : other.stopped = false) (hrest : lexer.rest = other.rest) :
    lexer.items.map Item.spelling = other.items.map Item.spelling := by
  induction hlength : lexer.rest.length using Nat.strong_induction_on generalizing lexer other with
  | _ length ih =>
    subst hlength
    cases hfirst : Lexeme.first? lexer.rest with
    | none =>
      have hend := Lexeme.first?_eq_none_iff.mp hfirst
      rw [items_of_end hend, items_of_end (hrest ▸ hend)]
    | some found =>
      obtain ⟨lexeme, rest⟩ := found
      have hother : Lexeme.first? other.rest = some (lexeme, rest) := hrest ▸ hfirst
      -- behind the lexeme both go on with the same text, at different places
      have hskip : (lexer.skip lexeme rest).items.map Item.spelling =
          (other.skip lexeme rest).items.map Item.spelling :=
        ih rest.length (Lexeme.length_lt_of_first?_eq_some hfirst) h h' rfl rfl
      cases lexeme with
      | blank => rw [items_of_blank h hfirst, items_of_blank h' hother, hskip]
      | token =>
        rw [items_of_token h hfirst, items_of_token h' hother, map_cons, map_cons, hskip]
        rfl
      | faulty =>
        rw [items_of_faulty h hfirst, items_of_faulty h' hother]
        rfl

theorem spelled_nil : spelled [] = [] := by
  rw [spelled, items_of_end rfl]
  rfl

theorem spelled_of_blank (h : Lexeme.first? text = some (.blank front, rest)) :
    spelled text = spelled rest := by
  rw [spelled, items_of_blank rfl h]
  exact map_spelling_items rfl rfl rfl

theorem spelled_of_token {kind : Token.Kind}
    (h : Lexeme.first? text = some (.token kind front, rest)) :
    spelled text = .ok (kind, front) :: spelled rest := by
  rw [spelled, items_of_token rfl h, map_cons, Item.spelling, String.toList_ofList]
  exact congrArg _ (map_spelling_items rfl rfl rfl)

/-! ### Leaving gaps out -/

namespace Lexeme

variable {c : Char}

/-- No rule for tokens applies to a text that starts with a character of no token. -/
theorem first?_of_strange (hword : isWord c = false) (hdash : c ≠ '-') (hapostrophe : c ≠ '\x27')
    (hmark : c ∉ operatorMarks) (hquote : c ≠ '"') (text : List Char) :
    first? (c :: text) = [run isBlank blank, lineComment, blockComment, fault].findSome?
      (· (c :: text)) := by
  have hdigit : c.isDigit = false :=
    Bool.eq_false_iff.mpr fun hdigit => absurd (isWord_of_isDigit hdigit) (by simp [hword])
  have hname : name (c :: text) = none := by
    rw [name, if_neg]
    simp [isWordStart, hword]
  have hstring : string (c :: text) = none := by
    unfold string
    split
    · next heq => exact absurd (cons.inj heq).1 hquote
    · rfl
  rw [first?, rules, findSome?_cons, run_eq_none hdigit, findSome?_cons,
    operator_eq_none hdash hapostrophe hmark, findSome?_cons, hname, findSome?_cons, hstring]

/-- Blanks are taken up to the next character that is none. -/
theorem first?_of_isBlank (h : isBlank c = true) (text : List Char) :
    first? (c :: text) = some (blank (c :: text.takeWhile isBlank), text.dropWhile isBlank) := by
  have hne {d : Char} (hd : isBlank d = false) : c ≠ d := by
    rintro rfl
    rw [h] at hd
    cases hd
  have hword : isWord c = false :=
    Bool.eq_false_iff.mpr fun hword => absurd (not_isBlank_of_isWord hword) (by simp [h])
  have hmark : c ∉ operatorMarks := fun hmem => by
    have hall : operatorMarks.all (fun c => !isBlank c) = true := by decide
    simpa [h] using all_eq_true.mp hall c hmem
  rw [first?_of_strange hword (hne (by decide)) (hne (by decide)) hmark (hne (by decide)),
    findSome?_cons, run, takeWhile_cons_of_pos h, dropWhile_cons_of_pos h]

theorem first?_of_slash (text : List Char) :
    first? ('/' :: text) = [lineComment, blockComment, fault].findSome? (· ('/' :: text)) := by
  rw [first?_of_strange (by decide) (by decide) (by decide) (by decide) (by decide), findSome?_cons,
    run_eq_none (by decide)]

/-- A comment is cut where it is closed for the first time. -/
theorem splitComment_of_open {text : List Char} (h : ¬['*', '/'] <:+: text) (rest : List Char) :
    splitComment (text ++ '*' :: '/' :: rest) = some (text ++ ['*', '/'], rest) := by
  induction text with
  | nil => rfl
  | cons c text ih =>
    rw [infix_cons_iff, not_or] at h
    rw [cons_append]
    unfold splitComment
    split
    · next heq => cases heq
    · next heq =>
      -- a star with a slash behind it would close the comment here
      obtain ⟨rfl, hslash⟩ := cons.inj heq
      cases text with
      | nil => simp at hslash
      | cons d text =>
        obtain rfl := (cons.inj hslash).1
        exact absurd (List.prefix_append ['*', '/'] text) h.1
    · next heq =>
      cases heq
      rw [ih h.2]
      rfl

end Lexeme

theorem spelled_blank_cons {c : Char} (h : isBlank c = true) (text : List Char) :
    spelled (c :: text) = spelled text := by
  rw [spelled_of_blank (Lexeme.first?_of_isBlank h text)]
  -- the blanks behind the first one have been taken too
  cases text with
  | nil => rfl
  | cons d text =>
    by_cases hd : isBlank d = true
    · rw [dropWhile_cons_of_pos hd, spelled_of_blank (Lexeme.first?_of_isBlank hd text)]
    · rw [dropWhile_cons_of_neg hd]

/-- What separates words can be left out in front of a text. -/
theorem Separates.spelled_append (h : Separates front) (rest : List Char) :
    spelled (front ++ rest) = spelled rest := by
  cases h with
  | blanks ne_nil blank =>
    clear ne_nil
    induction front with
    | nil => rfl
    | cons c front ih =>
      obtain ⟨hc, hfront⟩ := forall_mem_cons.mp blank
      rw [cons_append, spelled_blank_cons hc, ih hfront]
  | @lineComment text line =>
    have htext : ∀ d ∈ text, decide (d ≠ '\n') = true :=
      fun d hd => decide_eq_true (ne_of_mem_of_not_mem hd line)
    obtain ⟨htake, hdrop⟩ :=
      Lexeme.takeWhile_append_of_head htext
        (show ∀ c ∈ ('\n' :: rest).head?, decide (c ≠ '\n') = false by simp)
    have hfirst : Lexeme.first? ('/' :: '/' :: (text ++ '\n' :: rest)) =
        some (.blank ('/' :: '/' :: text), '\n' :: rest) := by
      rw [Lexeme.first?_of_slash, findSome?_cons, Lexeme.lineComment, htake, hdrop]
    rw [cons_append, cons_append, append_assoc, singleton_append, spelled_of_blank hfirst,
      spelled_blank_cons (by decide)]
  | @blockComment text open_ =>
    have hfirst : Lexeme.first? ('/' :: '*' :: (text ++ '*' :: '/' :: rest)) =
        some (.blank ('/' :: '*' :: (text ++ ['*', '/'])), rest) := by
      rw [Lexeme.first?_of_slash, findSome?_cons,
        show Lexeme.lineComment ('/' :: '*' :: _) = none from rfl, findSome?_cons,
          Lexeme.blockComment, Lexeme.splitComment_of_open open_]
      rfl
    rw [cons_append, cons_append, append_assoc, cons_append, singleton_append,
      spelled_of_blank hfirst]

theorem Gap.spelled_append (h : Gap gap) (rest : List Char) :
    spelled (gap ++ rest) = spelled rest := by
  induction h with
  | nil => rfl
  | cons separates more ih => rw [append_assoc, separates.spelled_append, ih]

/-! ### Words -/

theorem Word.tab_not_mem (word : Word) : '\t' ∉ word.text := by
  intro hmem
  obtain ⟨kind, text, spells, untabbed⟩ := word
  cases kind with
  | integer => exact absurd (spells.2 _ hmem) (by decide)
  | string => exact untabbed rfl hmem
  | name =>
    obtain ⟨first, more, rfl, hfirst, hmore⟩ := spells
    rcases mem_cons.mp hmem with rfl | hmem
    · exact absurd hfirst (by decide)
    · exact absurd (hmore _ hmem) (by decide)
  | operator =>
    rcases spells with rfl | rfl | ⟨c, hc, rfl⟩
    · simp at hmem
    · simp at hmem
    · obtain rfl := mem_singleton.mp hmem
      exact absurd hc (by decide)

/-- A word is found in front of a text that it cannot go on with. -/
theorem Word.spelled_append (word : Word) (h : ∀ c ∈ rest.head?, isWord c = false) :
    spelled (word.text ++ rest) = .ok (word.kind, word.text) :: spelled rest :=
  spelled_of_token (Lexeme.first?_append_of_spells word.spells h)

/-- A rendering starts with nothing that a word could go on with, if it is a gap alone or there is a
gap in front. -/
theorem head_render (hgap : Gap gap) (hapart : words ≠ [] → gap ≠ []) (column : Nat) :
    ∀ c ∈ (expandTabsFrom column (render gap words)).head?, isWord c = false := by
  have hhead := (hgap.expandTabsFrom column).head
  cases words with
  | nil => exact hhead
  | cons =>
    obtain ⟨first, more, hfirst⟩ :=
      exists_cons_of_ne_nil (expandTabsFrom_ne_nil (hapart (cons_ne_nil _ _)) column)
    rw [render, expandTabsFrom_append_columnBehind, hfirst]
    rw [hfirst] at hhead
    exact hhead

/-- In a rendering, with spaces for tabs, the words are found. -/
theorem spelled_render (hgap : Gap gap) (hgaps : ∀ entry ∈ words, Gap entry.2)
    (hapart : ∀ entry ∈ words.dropLast, entry.2 ≠ []) (column : Nat) :
    spelled (expandTabsFrom column (render gap words)) =
      words.map fun entry => .ok (entry.1.kind, entry.1.text) := by
  induction words generalizing gap column with
  | nil =>
    have hnothing := (hgap.expandTabsFrom column).spelled_append []
    rw [append_nil, spelled_nil] at hnothing
    exact hnothing
  | cons entry words ih =>
    obtain ⟨word, behind⟩ := entry
    obtain ⟨hbehind, hgaps⟩ := forall_mem_cons.mp hgaps
    have hfirst : words ≠ [] → behind ≠ [] := fun hne =>
      hapart (word, behind) (by rw [dropLast_cons_of_ne_nil hne]; exact mem_cons_self)
    have hothers : ∀ entry ∈ words.dropLast, entry.2 ≠ [] := fun entry hentry => by
      have hne : words ≠ [] := by rintro rfl; cases hentry
      exact hapart entry (by rw [dropLast_cons_of_ne_nil hne]; exact mem_cons_of_mem _ hentry)
    rw [render, expandTabsFrom_append_columnBehind, (hgap.expandTabsFrom column).spelled_append,
      expandTabsFrom_append_columnBehind, expandTabsFrom_of_tab_not_mem word.tab_not_mem,
      word.spelled_append (head_render hbehind hfirst _), ih hbehind hgaps hothers]
    rfl

/-- **Lexing undoes any rendering of words.** Words with gaps around them, of which only the first
one and the last one may be empty, are found again in their order, with their kinds and their texts,
and nothing else is found. When a lexer is asked again and again, it yields them one after the
other, and then nothing for ever. -/
theorem tokenize_render {gap : List Char} {words : List (Word × List Char)} (hgap : Gap gap)
    (hgaps : ∀ entry ∈ words, Gap entry.2) (hapart : ∀ entry ∈ words.dropLast, entry.2 ≠ []) :
    (tokenize (String.ofList (render gap words))).map Item.spelling =
        words.map (fun entry => .ok (entry.1.kind, entry.1.text)) ∧
      ∀ n, ((ofSource (String.ofList (render gap words))).answer n).map Item.spelling =
        words[n]?.map fun entry => .ok (entry.1.kind, entry.1.text) := by
  have hall : (tokenize (String.ofList (render gap words))).map Item.spelling =
      words.map fun entry => .ok (entry.1.kind, entry.1.text) := by
    rw [← spelled_render hgap hgaps hapart 0, spelled, tokenize, ofSource, String.toList_ofList]
  refine ⟨hall, fun n => ?_⟩
  rw [answer_eq_getElem?, ← List.getElem?_map, ← List.getElem?_map, ← hall]
  rfl

/-- A name, operators of one and of two characters, a string and an integer. There is a quote in a
comment, the start of a comment in another one and in the string, and tabs between the words and
inside of a comment. -/
def scatteredWords : List (Word × List Char) :=
  [(⟨.name, ['x', '1'], ⟨'x', ['1'], rfl, by decide, all_eq_true.mp (by decide)⟩, by decide⟩,
      ['/', '*', '\t', '*', '*', ' ', '"', '*', '/']),
    (⟨.operator, ['\x27', 's'], .inr (.inl rfl), by decide⟩, ['/', '/', ' ', '/', '*', '\n', '\t']),
    (⟨.string, ['"', '/', '/', '"'], ⟨['/', '/'], rfl, forall_mem_cons.mpr
      ⟨by decide, forall_mem_singleton.mpr (by decide)⟩⟩, by decide⟩, [' ']),
    (⟨.integer, ['7'], ⟨by decide, all_eq_true.mp (by decide)⟩, by decide⟩, ['\n']),
    (⟨.operator, [';'], .inr (.inr ⟨';', by decide, rfl⟩), by decide⟩, [])]

theorem gap_of_mem_scatteredWords : ∀ entry ∈ scatteredWords, Gap entry.2 := by
  have hblank {c : Char} (hc : isBlank c = true) : Separates [c] :=
    .blanks (cons_ne_nil _ _) (forall_mem_singleton.mpr hc)
  have hblock : Separates ('/' :: '*' :: (['\t', '*', '*', ' ', '"'] ++ ['*', '/'])) :=
    .blockComment (by decide)
  have hline : Separates ('/' :: '/' :: ([' ', '/', '*'] ++ ['\n'])) := .lineComment (by decide)
  refine forall_mem_cons.mpr ⟨.cons hblock .nil, forall_mem_cons.mpr ⟨?_, ?_⟩⟩
  · exact .cons hline (.cons (hblank (show isBlank '\t' = true by decide)) .nil)
  · refine forall_mem_cons.mpr ⟨.cons (hblank (show isBlank ' ' = true by decide)) .nil, ?_⟩
    refine forall_mem_cons.mpr ⟨.cons (hblank (show isBlank '\n' = true by decide)) .nil, ?_⟩
    exact forall_mem_singleton.mpr .nil

theorem tokenize_render_scatteredWords :
    String.ofList (render ['\t'] scatteredWords) = "\tx1/*\t** \"*/'s// /*\n\t\"//\" 7\n;" ∧
      (tokenize (String.ofList (render ['\t'] scatteredWords))).map Item.spelling =
        [.ok (.name, ['x', '1']), .ok (.operator, ['\x27', 's']),
          .ok (.string, ['"', '/', '/', '"']),
          .ok (.integer, ['7']), .ok (.operator, [';'])] := by
  refine ⟨by decide, (tokenize_render ?_ gap_of_mem_scatteredWords ?_).1⟩
  · exact .cons (.blanks (List.cons_ne_nil _ _) (List.forall_mem_singleton.mpr (by decide))) .nil
  · simp [scatteredWords]

end FrontEnd
