import FrontEnd.Diagnostic.Excerpt
import FrontEnd.Proofs.Token.Partition

/-!
# The rows of a diagnostic

A lexer counts lines by the newlines in the whole text, and columns after it has replaced the tabs
of the whole text. A diagnostic looks its line up among the lines of the text as it was written, and
replaces the tabs of that line only. Both find the same: a line that is counted is the one that is
looked up, but for a carriage return at its end (`getD_lines`), and the tabs of a line do not depend
on the lines around it (`splitOn_expandTabsFrom`).

So what stands at a location is found in the row of code that is shown for it. A stretch that is
*solid*, with no blank at either end, survives the trimming of the row as a whole (`ofLine_eq`), and
the row of carets is as it is meant to be (`Location.Pinned`).
-/

namespace FrontEnd

open List Text

namespace Text

variable {c : Char} {text blanks : List Char}

/-! ### Lines -/

theorem splitOn_newline_cons (text : List Char) :
    ('\n' :: text).splitOn '\n' = [] :: text.splitOn '\n' := by
  rw [List.splitOn, splitOnP_cons_eq_if_modifyHead]
  rfl

theorem splitOn_cons (hc : c ≠ '\n') (text : List Char) :
    (c :: text).splitOn '\n' = (text.splitOn '\n').modifyHead (c :: ·) := by
  rw [List.splitOn, splitOnP_cons_eq_if_modifyHead, if_neg (by simpa using hc)]
  rfl

theorem splitOn_append (h : '\n' ∉ front) (text : List Char) :
    (front ++ text).splitOn '\n' = (text.splitOn '\n').modifyHead (front ++ ·) := by
  induction front with
  | nil =>
    rw [nil_append]
    cases text.splitOn '\n' <;> rfl
  | cons c front ih =>
    rw [cons_append, splitOn_cons (ne_of_not_mem_cons h).symm, ih (not_mem_of_not_mem_cons h),
      modifyHead_modifyHead]
    rfl

/-- A line that is counted by newlines is the line that is looked up, but for a carriage return that
belongs to the line break. -/
theorem getD_lines {raw : List Char} {index : Nat} (h : (text.splitOn '\n')[index]? = some raw) :
    raw = (lines text).getD index [] ∨ raw = (lines text).getD index [] ++ ['\r'] := by
  fun_induction lines text generalizing index raw with
  | case1 =>
    cases index with
    | zero => exact .inl (Option.some.inj h).symm
    | succ => cases h
  | case2 text ih =>
    rw [splitOn_cons (by decide), splitOn_newline_cons] at h
    cases index with
    | zero => exact .inr (Option.some.inj h).symm
    | succ => exact ih h
  | case3 text ih =>
    rw [splitOn_newline_cons] at h
    cases index with
    | zero => exact .inl (Option.some.inj h).symm
    | succ => exact ih h
  | case4 c text hreturn hnewline hlines ih | case5 c text hreturn hnewline line rest hlines ih =>
    rw [splitOn_cons hnewline, getElem?_modifyHead] at h
    rw [hlines] at ih
    cases index with
    | zero =>
      obtain ⟨first, hfirst, rfl⟩ := Option.map_eq_some_iff.mp h
      exact (ih hfirst).imp (congrArg (c :: ·)) (congrArg (c :: ·))
    | succ => exact ih h

/-! ### Tabs -/

theorem expandTabsFrom_append (h : '\t' ∉ back) (column : Nat) (text : List Char) :
    expandTabsFrom column (text ++ back) = expandTabsFrom column text ++ back := by
  induction text generalizing column with
  | nil => exact expandTabsFrom_of_tab_not_mem h column
  | cons c text ih =>
    by_cases hc : c = '\t'
    · subst hc
      rw [cons_append, expandTabsFrom_tab, ih, expandTabsFrom_tab, append_assoc]
    · rw [cons_append, expandTabsFrom_cons hc, ih, expandTabsFrom_cons hc, cons_append]

/-- The tabs of a line do not depend on the lines around it; only the first one starts where the
text does. -/
theorem splitOn_expandTabsFrom {first : List Char} {rest : List (List Char)}
    (h : text.splitOn '\n' = first :: rest) (column : Nat) :
    (expandTabsFrom column text).splitOn '\n' = expandTabsFrom column first ::
      rest.map (expandTabsFrom 0) := by
  induction text generalizing column first rest with
  | nil =>
    cases h
    rfl
  | cons c text ih =>
    obtain ⟨next, others, hnext⟩ := exists_cons_of_ne_nil (splitOnP_ne_nil (· == '\n') text)
    have hnext : text.splitOn '\n' = next :: others := hnext
    by_cases hnewline : c = '\n'
    · subst hnewline
      rw [splitOn_newline_cons, hnext] at h
      cases h
      rw [expandTabsFrom_cons (by decide), splitOn_newline_cons, ih hnext]
      rfl
    · rw [splitOn_cons hnewline, hnext] at h
      cases h
      by_cases htab : c = '\t'
      · subst htab
        rw [expandTabsFrom_tab, splitOn_append, ih hnext, expandTabsFrom_tab]
        · rfl
        · exact fun hmem => absurd (eq_of_mem_replicate hmem) (by decide)
      · rw [expandTabsFrom_cons htab, splitOn_cons hnewline, ih hnext, expandTabsFrom_cons htab]
        rfl

/-- **The lines of a text with spaces for tabs are its lines with spaces for tabs.** -/
theorem splitOn_expandTabs (text : List Char) :
    (expandTabsFrom 0 text).splitOn '\n' = (text.splitOn '\n').map (expandTabsFrom 0) := by
  obtain ⟨first, rest, h⟩ := exists_cons_of_ne_nil (splitOnP_ne_nil (· == '\n') text)
  have h : text.splitOn '\n' = first :: rest := h
  rw [splitOn_expandTabsFrom h, h]
  rfl

/-- What is not blank was there before the tabs were replaced. -/
theorem mem_of_mem_expandTabsFrom {column : Nat} (h : c ∈ expandTabsFrom column text)
    (hc : isBlank c = false) :
    c ∈ text := by
  induction text generalizing column with
  | nil => exact h
  | cons first text ih =>
    by_cases htab : first = '\t'
    · subst htab
      rw [expandTabsFrom_tab, mem_append] at h
      rcases h with hspace | hrest
      · rw [eq_of_mem_replicate hspace] at hc
        exact absurd hc (by decide)
      · exact mem_cons_of_mem _ (ih hrest)
    · rw [expandTabsFrom_cons htab, mem_cons] at h
      exact mem_cons.mpr (h.imp_right ih)

/-! ### Blanks -/

/-- A stretch with no blank at either end. -/
structure Solid (stretch : List Char) : Prop where
  starts : ∃ c ∈ stretch.head?, isBlank c = false
  ends : ∃ c ∈ stretch.getLast?, isBlank c = false

theorem dropWhile_append_of_head (h : ∃ c ∈ stretch.head?, isBlank c = false)
    (front back : List Char) :
    (front ++ (stretch ++ back)).dropWhile isBlank = front.dropWhile isBlank ++
      (stretch ++ back) := by
  obtain ⟨c, hc, hblank⟩ := h
  obtain ⟨rest, rfl⟩ := head?_eq_some_iff.mp hc
  rw [dropWhile_append]
  split
  · next hempty =>
    rw [isEmpty_iff.mp hempty, cons_append, dropWhile_cons_of_neg (by simpa using hblank)]
    rfl
  · rfl

/-- Trimming the front of a row stops at what is solid. -/
theorem trimStart_append (h : Solid stretch) (front back : List Char) :
    trimStart (front ++ (stretch ++ back)) = trimStart front ++ (stretch ++ back) :=
  dropWhile_append_of_head h.starts front back

theorem trimEnd_append (h : Solid stretch) (front back : List Char) :
    trimEnd (front ++ (stretch ++ back)) = front ++ (stretch ++ trimEnd back) := by
  obtain ⟨c, hc, hblank⟩ := h.ends
  have hhead : ∃ c ∈ stretch.reverse.head?, isBlank c = false := ⟨c, by rwa [head?_reverse], hblank⟩
  have hdrop := dropWhile_append_of_head hhead back.reverse front.reverse
  rw [trimEnd, reverse_append, reverse_append, append_assoc, hdrop, reverse_append,
    reverse_append, reverse_reverse, reverse_reverse, append_assoc]
  rfl

/-- Blanks at the end do not matter to what is trimmed. -/
theorem trimEnd_append_blanks (h : ∀ c ∈ blanks, isBlank c = true) (text : List Char) :
    trimEnd (text ++ blanks) = trimEnd text := by
  rw [trimEnd, reverse_append, dropWhile_append_of_pos]
  · rfl
  · simpa using h

/-- What is solid does not reach into blanks at the end. -/
theorem exists_of_append_blanks (hsolid : Solid stretch) (hblanks : ∀ c ∈ blanks, isBlank c = true)
    (h : text ++ blanks = front ++ (stretch ++ back)) :
    ∃ less, text = front ++ (stretch ++ less) ∧ back = less ++ blanks := by
  rw [← append_assoc] at h
  rcases append_eq_append_iff.mp h with ⟨more, hmore, hsplit⟩ | ⟨less, rfl, rfl⟩
  · obtain ⟨c, hc, hblank⟩ := hsolid.ends
    have hnil : more = [] := by
      by_contra hne
      -- the last character of the stretch would be among the blanks
      have hlast := congrArg List.getLast? hmore
      rw [getLast?_append, getLast?_append, Option.mem_def.mp hc, Option.some_or,
        getLast?_eq_some_getLast hne, Option.some_or, Option.some.injEq] at hlast
      have hmem : c ∈ blanks := hsplit ▸ mem_append_left _ (hlast ▸ getLast_mem hne)
      rw [hblanks c hmem] at hblank
      cases hblank
    subst hnil
    rw [append_nil] at hmore
    exact ⟨[], by rw [append_nil, hmore], by rw [hsplit]; rfl⟩
  · exact ⟨less, append_assoc _ _ _, rfl⟩

/-! ### Rows of code -/

/-- The number of blanks in front of a line, with spaces for tabs. -/
def indentOf (line : List Char) : Nat :=
  ((expandTabsFrom 0 line).takeWhile isBlank).length

/-- The number of columns of a line up to its last character that is not blank. -/
def widthOf (line : List Char) : Nat :=
  (trimEnd (expandTabsFrom 0 line)).length

variable {line front stretch back : List Char}

theorem indentOf_add (hsolid : Solid stretch)
    (h : expandTabsFrom 0 line = front ++ (stretch ++ back)) :
    indentOf line + (trimStart front).length = front.length := by
  have hlength :=
    congrArg List.length (takeWhile_append_dropWhile (p := isBlank) (l := expandTabsFrom 0 line))
  have hdrop : ((expandTabsFrom 0 line).dropWhile isBlank) = trimStart front ++
      (stretch ++ back) := by
    rw [h]
    exact trimStart_append hsolid front back
  rw [length_append, hdrop, h] at hlength
  simp only [length_append] at hlength
  have hindent : indentOf line = ((expandTabsFrom 0 line).takeWhile isBlank).length := rfl
  rw [h] at hindent
  omega

theorem widthOf_eq (hsolid : Solid stretch)
    (h : expandTabsFrom 0 line = front ++ (stretch ++ back)) :
    widthOf line = front.length + (stretch.length + (trimEnd back).length) := by
  rw [widthOf, h, trimEnd_append hsolid, length_append, length_append]

end Text

/-- The line break at the end of a line is taken off before its tabs are replaced, which makes no
difference. -/
theorem ShownLine.ofLine_eq {line front stretch back : List Char} (hsolid : Text.Solid stretch)
    (h : expandTabsFrom 0 line = front ++ (stretch ++ back)) :
    ofLine line = ⟨indentOf line, widthOf line, trimStart front ++ (stretch ++ trimEnd back)⟩ := by
  obtain ⟨breaks, hbreaks, hline⟩ : ∃ breaks : List Char, (∀ c ∈ breaks, c = '\n' ∨ c = '\r') ∧
      line = withoutBreak line ++ breaks := by
    refine ⟨(line.reverse.takeWhile fun c => c = '\n' ∨ c = '\r').reverse, fun c hc => ?_, ?_⟩
    · have hbreak := mem_takeWhile_imp (mem_reverse.mp hc)
      simpa using hbreak
    · rw [withoutBreak, ← reverse_append, takeWhile_append_dropWhile, reverse_reverse]
  have htab : '\t' ∉ breaks :=
    fun hmem => by rcases hbreaks _ hmem with heq | heq <;> exact absurd heq (by decide)
  have hblanks : ∀ c ∈ breaks, isBlank c = true := by
    intro c hc
    rcases hbreaks c hc with rfl | rfl <;> decide
  have hexpanded : expandTabsFrom 0 (withoutBreak line) ++ breaks = front ++ (stretch ++ back) := by
    rw [← expandTabsFrom_append htab, ← hline, h]
  obtain ⟨less, hless, rfl⟩ := exists_of_append_blanks hsolid hblanks hexpanded
  have hindent := indentOf_add hsolid h
  have hwidth := widthOf_eq hsolid h
  rw [trimEnd_append_blanks hblanks] at hwidth ⊢
  unfold ofLine
  simp only [hless, trimStart_append hsolid, trimEnd_append hsolid, mk.injEq,
    length_append, and_true]
  constructor
  · omega
  · omega

/-- A location on what is shown of a line is not moved. -/
theorem ShownLine.marked?_mk {indent width : Nat} {location : Location} (text : List Char)
    (hindent : indent ≤ location.start)
    (hstart : location.start ≤ min (location.stop.getD width) width) :
    marked? ⟨indent, width, text⟩ location =
      some (text, List.replicate (location.start - indent) ' ' ++
      List.replicate (min (location.stop.getD width) width - location.start) '^') := by
  have hwidth : location.start ≤ width := Nat.le_trans hstart (Nat.min_le_right _ _)
  have hmark : markStart ⟨indent, width, text⟩ location = location.start := by
    rw [markStart, Nat.max_eq_left hindent, Nat.min_eq_left hwidth]
  have hstop : markStop ⟨indent, width, text⟩ location = min (location.stop.getD width) width := by
    rw [markStop, hmark, Nat.max_eq_left hstart]
  simp only [marked?, hmark, hstop]
  rw [if_neg (Nat.not_lt.mpr hindent)]

/-! ### Locations in rows -/

namespace Location

/-- The line of a text that a diagnostic at a location shows. -/
def lineIn (location : Location) (source : String) : List Char :=
  (lineNumbered location.line source).toList

/-- The number of carets in a diagnostic at a location, in a row of the given width. -/
def reach (location : Location) (width : Nat) : Nat :=
  min (location.stop.getD width) width - location.start

/-- The rows of code and carets for a location in a line. -/
def rows (location : Location) (line : List Char) : List Char × List Char :=
  (trimEnd (trimStart (expandTabsFrom 0 line)),
    List.replicate (location.start - indentOf line) ' ' ++
      List.replicate (location.reach (widthOf line)) '^')

/-- **A location on code, with its diagnostics right there.** The line that is looked up is the one
that the lexer counts, and has something on it. The location starts on what is shown of the line and
does not end before that, so it does not have to be moved. -/
structure Pinned (location : Location) (source : String) : Prop where
  numbered : 1 ≤ location.line
  counted : ∃ raw, (source.toList.splitOn '\n')[location.line - 1]? = some raw ∧
    ((expandTabs source).toList.splitOn '\n')[location.line - 1]? = some (expandTabsFrom 0 raw) ∧
    (raw = location.lineIn source ∨ raw = location.lineIn source ++ ['\r'])
  code : ∃ c ∈ location.lineIn source, isBlank c = false
  indent_le : indentOf (location.lineIn source) ≤ location.start
  start_le : location.start ≤
    min (location.stop.getD (widthOf (location.lineIn source))) (widthOf (location.lineIn source))
  shown : ∀ sort fileName message : String,
    excerpt? sort fileName message (some location) (lineNumbered location.line source) =
      let code := String.ofList (location.rows (location.lineIn source)).1
      let carets := String.ofList (location.rows (location.lineIn source)).2
      some s!"{sort} in file '{fileName}', line {location.line}: {message}\n  {code}\n  {carets}"

/-- The carets for a location stand right under a stretch of the row of code. -/
def Underlines (location : Location) (source : String) (stretch : List Char) : Prop :=
  ∃ before behind, location.rows (location.lineIn source) =
    (before ++ stretch ++ behind,
      List.replicate before.length ' ' ++ List.replicate stretch.length '^')

variable {location first last : Location} {source : String} {stretch other : List Char}

section

variable (h : location.Shows (expandTabs source).toList stretch) (hsolid : Text.Solid stretch)
include h hsolid

/-- What a location covers in the text of a lexer is found in the line that is shown for it. -/
theorem Shows.exists_row :
    ∃ raw front back, 1 ≤ location.line ∧
      (source.toList.splitOn '\n')[location.line - 1]? = some raw ∧
      (raw = location.lineIn source ∨ raw = location.lineIn source ++ ['\r']) ∧
      expandTabsFrom 0 (location.lineIn source) = front ++ (stretch ++ back) ∧
      location.start = front.length ∧ location.stop = some (front.length + stretch.length) := by
  obtain ⟨front, back, hline, hrow, hstart, hstop⟩ := h
  rw [toList_expandTabs, splitOn_expandTabs, getElem?_map] at hrow
  obtain ⟨raw, hraw, hrow⟩ := Option.map_eq_some_iff.mp hrow
  rw [append_assoc] at hrow
  have hlooked : raw = location.lineIn source ∨ raw = location.lineIn source ++ ['\r'] := by
    rw [lineIn, lineNumbered, String.toList_ofList]
    exact getD_lines hraw
  rcases hlooked with hsame | hreturn
  · exact ⟨raw, front, back, hline, hraw, .inl hsame, hsame ▸ hrow, hstart, hstop⟩
  · -- the carriage return is blank, so the stretch is in front of it
    rw [hreturn, expandTabsFrom_append (by decide)] at hrow
    have hblank : ∀ c ∈ ['\r'], isBlank c = true := forall_mem_singleton.mpr (by decide)
    obtain ⟨less, hless, -⟩ := exists_of_append_blanks hsolid hblank hrow
    exact ⟨raw, front, less, hline, hraw, .inr hreturn, hless, hstart, hstop⟩

theorem Shows.indent_le : indentOf (location.lineIn source) ≤ location.start := by
  obtain ⟨raw, front, back, -, -, -, hrow, hstart, -⟩ := h.exists_row hsolid
  have hindent := indentOf_add hsolid hrow
  omega

theorem Shows.stop_le :
    ∃ stop, location.stop = some stop ∧ location.start ≤ stop ∧
      stop ≤ widthOf (location.lineIn source) := by
  obtain ⟨raw, front, back, -, -, -, hrow, hstart, hstop⟩ := h.exists_row hsolid
  have hwidth := widthOf_eq hsolid hrow
  exact ⟨_, hstop, by omega, by omega⟩

/-- On a line with something on it, a location that does not have to be moved is shown where it
is. -/
theorem Shows.pinned {place : Location} (hline : place.line = location.line)
    (hindent : indentOf (location.lineIn source) ≤ place.start)
    (hstart : place.start ≤ min (place.stop.getD (widthOf (location.lineIn source)))
      (widthOf (location.lineIn source))) : place.Pinned source := by
  obtain ⟨raw, front, back, hpos, hraw, hlooked, hrow, -, -⟩ := h.exists_row hsolid
  have hsame : place.lineIn source = location.lineIn source := by rw [lineIn, lineIn, hline]
  rw [← hline] at hpos hraw
  rw [← hsame] at hindent hstart hlooked hrow
  refine ⟨hpos, ⟨raw, hraw, ?_, hlooked⟩, ?_, hindent, hstart, fun sort fileName message => ?_⟩
  · rw [toList_expandTabs, splitOn_expandTabs, getElem?_map, hraw]
    rfl
  · obtain ⟨c, hc, hblank⟩ := hsolid.starts
    have hexpanded : c ∈ expandTabsFrom 0 (place.lineIn source) := by
      rw [hrow]
      exact mem_append_right _ (mem_append_left _ (mem_of_head? hc))
    exact ⟨c, mem_of_mem_expandTabsFrom hexpanded hblank, hblank⟩
  · have hrows :
        (ShownLine.ofLine (place.lineIn source)).marked? place =
          some (place.rows (place.lineIn source)) := by
      have hcode : trimStart front ++ (stretch ++ trimEnd back) =
          trimEnd (trimStart (expandTabsFrom 0 (place.lineIn source))) := by
        rw [hrow, trimStart_append hsolid, trimEnd_append hsolid]
      rw [ShownLine.ofLine_eq hsolid hrow, hcode,
        ShownLine.marked?_mk _ hindent hstart, rows, reach]
    unfold excerpt?
    rw [show (lineNumbered place.line source).toList = place.lineIn source from rfl]
    simp only [hrows, Option.map_some]

/-- The carets of what a location covers stand right under it. -/
theorem Shows.underlines : location.Underlines source stretch := by
  obtain ⟨raw, front, back, -, -, -, hrow, hstart, hstop⟩ := h.exists_row hsolid
  have hindent := indentOf_add hsolid hrow
  have hwidth := widthOf_eq hsolid hrow
  have hspaces : location.start - indentOf (location.lineIn source) = (trimStart front).length := by
    omega
  have hcarets : location.reach (widthOf (location.lineIn source)) = stretch.length := by
    rw [reach, hstop, Option.getD_some]
    omega
  have hcode : trimEnd (trimStart (expandTabsFrom 0 (location.lineIn source))) =
      trimStart front ++ stretch ++ trimEnd back := by
    rw [hrow, trimStart_append hsolid, trimEnd_append hsolid, append_assoc]
  refine ⟨trimStart front, trimEnd back, ?_⟩
  rw [rows, hspaces, hcarets, hcode]

end

end Location

end FrontEnd
