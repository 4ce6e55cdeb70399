/-!
# Ranges of code points

A class of characters is given by the ranges of its code points, first and last included. The
ranges stand in increasing order, so the search for a code point can stop at the first range that
starts behind it.
-/

namespace Tagline.Text

/-- Ranges of code points in increasing order, each with its first and its last member. -/
abbrev CodeRanges := List (Nat × Nat)

def CodeRanges.covers : CodeRanges → Nat → Bool
  | [], _ => false
  | (first, last) :: rest, n =>
    if n < first then false else n ≤ last || CodeRanges.covers rest n

/-- A code point that is covered lies in one of the ranges. -/
theorem CodeRanges.exists_range_of_covers {ranges : CodeRanges} {n : Nat}
    (h : ranges.covers n = true) : ∃ r ∈ ranges, r.1 ≤ n ∧ n ≤ r.2 := by
  induction ranges with
  | nil => simp [CodeRanges.covers] at h
  | cons r rest ih =>
    obtain ⟨first, last⟩ := r
    simp only [CodeRanges.covers] at h
    split at h
    · simp at h
    · simp only [Bool.or_eq_true, decide_eq_true_eq] at h
      rcases h with h | h
      · exact ⟨(first, last), by simp, by omega, h⟩
      · obtain ⟨r, hr, hn⟩ := ih h
        exact ⟨r, List.mem_cons_of_mem _ hr, hn⟩

end Tagline.Text
