import FrontEnd.Proofs.Diagnostic.Rows
import FrontEnd.Proofs.Token.Rendering
import Mathlib.Data.List.GetD
import Mathlib.Order.Bounds.Basic

/-!
# Columns as they are shown

Replacing tabs keeps a column while it goes through a text. The column can also be read off what has
been shown so far: it is the number of characters behind the last line break (`columnOf`). With it
the replacement is said without keeping anything (`Expands`): a tab becomes the spaces up to the
next tab stop, and any other character stays.

A line break sets the column to zero, so that a text and the text behind a line break have nothing
to do with each other (`expandTabsFrom_break`), and a line of a text is shown as it would be if
there were no others (`lines_expandTabs`).
-/

namespace FrontEnd.Text

open List

variable {c : Char} {column width : Nat} {shown text rest : List Char}

/-! ### Columns -/

/-- The column behind a text without tabs: the number of characters since the last line break. -/
def columnOf (shown : List Char) : Nat :=
  (shown.reverse.takeWhile fun c => c ≠ '\n' ∧ c ≠ '\r').length

theorem columnOf_append_singleton (shown : List Char) (c : Char) :
    columnOf (shown ++ [c]) = columnAfter (columnOf shown) c := by
  rw [columnOf, reverse_append, reverse_singleton, singleton_append, takeWhile_cons, columnAfter]
  by_cases hbreak : c = '\n' ∨ c = '\r'
  · rw [if_pos hbreak, if_neg (by simpa [imp_iff_not_or, not_or] using hbreak)]
    rfl
  · rw [if_neg hbreak, if_pos (by simpa using hbreak)]
    rfl

theorem columnOf_append_spaces (shown : List Char) (width : Nat) :
    columnOf (shown ++ List.replicate width ' ') = columnOf shown + width := by
  induction width with
  | zero => rw [replicate_zero, append_nil, Nat.add_zero]
  | succ width ih =>
    rw [replicate_succ', ← append_assoc, columnOf_append_singleton, ih, columnAfter,
      if_neg (by decide), Nat.add_assoc]

/-- The spaces for a tab end at the first tab stop behind it. -/
theorem isLeast_spacesToStop (column : Nat) :
    IsLeast {stop | column < stop ∧ 4 ∣ stop} (column + spacesToStop column) := by
  have hstop : spacesToStop column = 4 - column % 4 := rfl
  refine ⟨⟨by omega, by omega⟩, ?_⟩
  rintro stop ⟨hlt, hdvd⟩
  omega

/-! ### Tabs as they are shown -/

/-- What a text is shown as behind what has been shown. A tab is replaced by the spaces that reach
the first tab stop behind the column where it stands. -/
inductive Expands : (shown text rest : List Char) → Prop
  | nil {shown : List Char} : Expands shown [] []
  | tab {shown text rest : List Char} {width : Nat}
      (stop : IsLeast {stop | columnOf shown < stop ∧ 4 ∣ stop} (columnOf shown + width))
      (more : Expands (shown ++ List.replicate width ' ') text rest) :
      Expands shown ('\t' :: text) (List.replicate width ' ' ++ rest)
  | other {shown text rest : List Char} {c : Char} (plain : c ≠ '\t')
      (more : Expands (shown ++ [c]) text rest) :
      Expands shown (c :: text) (c :: rest)

/-- Keeping the column while going through a text comes to the same as counting what has been
shown. -/
theorem expands_expandTabsFrom (shown text : List Char) :
    Expands shown text (expandTabsFrom (columnOf shown) text) := by
  induction text generalizing shown with
  | nil => exact .nil
  | cons c text ih =>
    by_cases htab : c = '\t'
    · subst htab
      have hmore := ih (shown ++ List.replicate (spacesToStop (columnOf shown)) ' ')
      rw [columnOf_append_spaces] at hmore
      rw [expandTabsFrom_tab]
      exact .tab (isLeast_spacesToStop _) hmore
    · have hmore := ih (shown ++ [c])
      rw [columnOf_append_singleton] at hmore
      rw [expandTabsFrom_cons htab]
      exact .other htab hmore

theorem Expands.eq (h : Expands shown text rest) : rest = expandTabsFrom (columnOf shown) text := by
  induction h with
  | nil => rfl
  | @tab shown text rest width stop more ih =>
    have hwidth : width = spacesToStop (columnOf shown) :=
      Nat.add_left_cancel (stop.unique (isLeast_spacesToStop (columnOf shown)))
    rw [expandTabsFrom_tab, ← hwidth, ← columnOf_append_spaces, ← ih]
  | other plain more ih => rw [expandTabsFrom_cons plain, ← columnOf_append_singleton, ← ih]

theorem expands_iff : Expands [] text shown ↔ shown = expandTabsFrom 0 text :=
  ⟨Expands.eq, fun h => h ▸ expands_expandTabsFrom [] text⟩

/-! ### Lines -/

/-- Behind a line break the column is zero, whatever stands in front of it. -/
theorem expandTabsFrom_break (hbreak : c = '\n' ∨ c = '\r') (front back : List Char) :
    expandTabsFrom column (front ++ c :: back) = expandTabsFrom column front ++ c ::
      expandTabsFrom 0 back := by
  have htab : c ≠ '\t' := by rcases hbreak with rfl | rfl <;> decide
  rw [expandTabsFrom_append_columnBehind, expandTabsFrom_cons htab, columnAfter, if_pos hbreak]

/-- The first character belongs to the first line, unless it is part of a line break. -/
theorem lines_cons (hnewline : c ≠ '\n') (hreturn : c = '\r' → text.head? ≠ some '\n') :
    lines (c :: text) = (c :: (lines text).headD []) :: (lines text).tail := by
  rw [lines]
  · cases lines text <;> rfl
  · rintro rest rfl rfl
    exact hreturn rfl rfl
  · exact hnewline

/-- Spaces in front of a text belong to its first line. -/
theorem lines_spaces (hwidth : 0 < width) (text : List Char) :
      lines (List.replicate width ' ' ++ text) =
        (List.replicate width ' ' ++ (lines text).headD []) :: (lines text).tail := by
  have hcons (text : List Char) :
      lines (' ' :: text) = (' ' :: (lines text).headD []) :: (lines text).tail :=
    lines_cons (by decide) fun h => absurd h (by decide)
  induction width, hwidth using Nat.le_induction with
  | base => exact hcons text
  | succ width hwidth ih =>
    rw [replicate_succ, cons_append, hcons, ih]
    rfl

/-- Lines with spaces for tabs, if the first one starts at `column`. -/
def expandLines (column : Nat) : List (List Char) → List (List Char)
  | [] => []
  | first :: rest => expandTabsFrom column first :: rest.map (expandTabsFrom 0)

/-- Replacing tabs goes line by line. Only the first line starts where the text does. -/
theorem lines_expandTabsFrom (column : Nat) (text : List Char) :
    lines (expandTabsFrom column text) = expandLines column (lines text) := by
  induction text generalizing column with
  | nil => rfl
  | cons c text ih =>
    by_cases hnewline : c = '\n'
    · subst hnewline
      rw [expandTabsFrom_cons (by decide), lines, lines, ih]
      cases lines text <;> rfl
    by_cases hreturn : c = '\r' ∧ text.head? = some '\n'
    · -- the two characters are one line break, and the first line is empty
      obtain ⟨rfl, hhead⟩ := hreturn
      obtain ⟨rest, rfl⟩ := head?_eq_some_iff.mp hhead
      have hrest := ih 0
      rw [expandTabsFrom_cons (by decide), lines, lines] at hrest
      rw [expandTabsFrom_cons (by decide), expandTabsFrom_cons (by decide), lines, lines]
      exact hrest
    rw [lines_cons hnewline fun hc hhead => hreturn ⟨hc, hhead⟩]
    by_cases htab : c = '\t'
    · subst htab
      rw [expandTabsFrom_tab, lines_spaces (spacesToStop_pos column), ih, expandLines,
        expandTabsFrom_tab]
      cases lines text <;> rfl
    · have hhead : c = '\r' → (expandTabsFrom (columnAfter column c) text).head? ≠ some '\n' :=
        fun hc hhead => hreturn ⟨hc, head?_expandTabsFrom (by decide) hhead⟩
      rw [expandTabsFrom_cons htab, lines_cons hnewline hhead, ih, expandLines,
        expandTabsFrom_cons htab]
      cases lines text <;> rfl

theorem lines_expandTabs (text : List Char) :
    lines (expandTabsFrom 0 text) = (lines text).map (expandTabsFrom 0) := by
  rw [lines_expandTabsFrom]
  cases lines text <;> rfl

/-- **Tabs are replaced line by line, up to the next tab stop.** -/
theorem expandTabs_columnExact :
    -- line breaks separate
    (∀ a b : String, expandTabs (a ++ "\n" ++ b) = expandTabs a ++ "\n" ++ expandTabs b) ∧
    (∀ a b : String, expandTabs (a ++ "\r" ++ b) = expandTabs a ++ "\r" ++ expandTabs b) ∧
    -- every tab is replaced by the spaces up to the next tab stop, and nothing else changes
    (∀ text : String, '\t' ∉ (expandTabs text).toList) ∧
    (∀ text shown : String, Expands [] text.toList shown.toList ↔ shown = expandTabs text) ∧
    (∀ text : String, expandTabs (expandTabs text) = expandTabs text) ∧
    -- lines are what they are by themselves, those that are looked up and those that are counted
    (∀ (source : String) (number : Nat),
      expandTabs (lineNumbered number source) = lineNumbered number (expandTabs source)) ∧
    ∀ source : String, (expandTabs source).toList.splitOn '\n' =
      (source.toList.splitOn '\n').map (expandTabsFrom 0) := by
  have hbreak {ending : String} {c : Char} (hending : ending.toList = [c])
      (hc : c = '\n' ∨ c = '\r') (a b : String) :
      expandTabs (a ++ ending ++ b) = expandTabs a ++ ending ++ expandTabs b := by
    apply String.toList_injective
    simp only [toList_expandTabs, String.toList_append, hending, List.append_assoc,
      List.singleton_append]
    exact expandTabsFrom_break hc a.toList b.toList
  refine ⟨hbreak (c := '\n') (by simp) (.inl rfl), hbreak (c := '\r') (by simp) (.inr rfl),
    fun text => ?_,
    fun text shown => ?_, fun text => ?_, fun source number => ?_, fun source => ?_⟩
  · rw [toList_expandTabs]
    exact tab_not_mem_expandTabsFrom 0 text.toList
  · rw [expands_iff, ← toList_expandTabs, String.toList_inj]
  · apply String.toList_injective
    rw [toList_expandTabs, toList_expandTabs]
    exact expandTabsFrom_of_tab_not_mem (tab_not_mem_expandTabsFrom 0 text.toList) 0
  · apply String.toList_injective
    rw [toList_expandTabs, lineNumbered, lineNumbered, String.toList_ofList, String.toList_ofList,
      toList_expandTabs, lines_expandTabs]
    exact (List.getD_map _ [] (expandTabsFrom 0)).symm
  · rw [toList_expandTabs]
    exact splitOn_expandTabs source.toList

end FrontEnd.Text
