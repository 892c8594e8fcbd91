/-!
# Sets of characters as sorted ranges

A character class is a list of ranges of code points in ascending order, ends included. The search
stops at the first range above the code point, so small code points are decided at once.
-/

namespace Pinboard

/-- Ranges of code points, ends included, in ascending order. -/
abbrev CodeRanges := List (Nat × Nat)

namespace CodeRanges

/-- Whether a code point lies in one of the ranges. -/
def covers : CodeRanges → Nat → Bool
  | [], _ => false
  | (first, last) :: rest, n => decide (first ≤ n) && (decide (n ≤ last) || covers rest n)

end CodeRanges
end Pinboard
