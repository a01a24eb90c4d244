/-!
# Sets of characters given by code ranges

A character property of the Unicode standard is a set of code points, and the standard publishes
it as a list of intervals. This module reads such a list as a set, so that a property is one
table and one definition, and the tables of the other modules hold nothing but data.
-/

namespace Pagewright.Text

/-- An interval of code points, both ends included. -/
abbrev CodeRange := Nat × Nat

/-- The code point `n` lies in the interval. -/
def CodeRange.holds (r : CodeRange) (n : Nat) : Bool :=
  r.1 ≤ n && n ≤ r.2

/-- The character lies in one of the intervals. -/
def inRanges (ranges : List CodeRange) (c : Char) : Bool :=
  ranges.any (·.holds c.toNat)

end Pagewright.Text
