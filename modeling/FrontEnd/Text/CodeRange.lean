/-!
# Ranges of code points

A class of characters that a standard fixes by data is kept as an ascending list of closed
ranges of code points. `CodeRange.covers` looks a character up and stops at the first range
that lies behind it, so that the characters of the first block are decided by the first few
ranges. A long table is written down as lengths of runs (`CodeRange.ofRuns`).
-/

namespace FrontEnd.Text

/-- A closed range of code points, first and last included. -/
abbrev CodeRange := Nat × Nat

/-- The ranges that runs of code points make up, from `next` on. The lengths of the runs are given
by turns: so many code points are left out, and so many are in a range. -/
def CodeRange.ofRuns (next : Nat) : List Nat → List CodeRange
  | out :: within :: runs =>
    (next + out, next + out + within - 1) :: ofRuns (next + out + within) runs
  | _ => []

/-- Whether one of the ranges holds `code`. The ranges are ascending: a range that starts behind
`code` ends the search. -/
def CodeRange.covers : List CodeRange → Nat → Bool
  | [], _ => false
  | (first, last) :: ranges, code =>
    if code < first then false else code ≤ last || covers ranges code

@[simp] theorem CodeRange.covers_nil (code : Nat) : CodeRange.covers [] code = false := rfl

/-- What is covered lies in one of the ranges. -/
theorem CodeRange.exists_of_covers {ranges : List CodeRange} {code : Nat}
    (h : CodeRange.covers ranges code = true) : ∃ r ∈ ranges, r.1 ≤ code ∧ code ≤ r.2 := by
  induction ranges with
  | nil => simp at h
  | cons r ranges ih =>
    obtain ⟨first, last⟩ := r
    unfold CodeRange.covers at h
    split at h
    · simp at h
    · next hge =>
      simp only [Bool.or_eq_true, decide_eq_true_eq] at h
      rcases h with h | h
      · exact ⟨(first, last), List.mem_cons_self, Nat.le_of_not_lt hge, h⟩
      · obtain ⟨r, hr, hin⟩ := ih h
        exact ⟨r, List.mem_cons_of_mem _ hr, hin⟩

end FrontEnd.Text
