/-!
# Ranges of code points

A character property given by a standard is kept as a list of closed ranges of code points.
-/

namespace Montage.Text

/-- A closed range of code points: its first and its last member. -/
abbrev Range := Nat × Nat

/-- Whether a code point lies in one of the ranges. -/
def inRanges (ranges : List Range) (code : Nat) : Bool :=
  ranges.any fun r => r.1 ≤ code && code ≤ r.2

end Montage.Text
