/-!
# Ranges of code points

A class of characters is a list of ranges in ascending order. The tables of this folder are those of
version 17 of the Unicode standard.
-/

namespace MiddleEnd.Text

/-- The code points from the first to the second, both included. -/
abbrev Range := Nat × Nat

/-- Whether a code point lies in one of the ranges. -/
def inRanges (ranges : List Range) (n : Nat) : Bool :=
  ranges.any fun r => r.1 ≤ n && n ≤ r.2

theorem inRanges_iff {ranges : List Range} {n : Nat} :
    inRanges ranges n = true ↔ ∃ r ∈ ranges, r.1 ≤ n ∧ n ≤ r.2 := by
  simp [inRanges]

end MiddleEnd.Text
