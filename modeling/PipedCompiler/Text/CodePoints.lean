/-!
# Sets of code points

A property of characters is given by a table of inclusive ranges of code points.  The tables
follow Unicode 17.
-/

namespace PipedCompiler.Text

/-- Inclusive ranges of code points, in increasing order. -/
abbrev CodeRanges := List (Nat × Nat)

/-- Whether some range of the table holds the code point. -/
def CodeRanges.contains (ranges : CodeRanges) (code : Nat) : Bool :=
  ranges.any fun range => range.1 ≤ code && code ≤ range.2

theorem CodeRanges.contains_iff {ranges : CodeRanges} {code : Nat} :
    ranges.contains code = true ↔ ∃ range ∈ ranges, range.1 ≤ code ∧ code ≤ range.2 := by
  simp [contains]

end PipedCompiler.Text
