/-!
# Sets of characters as ranges of code points

All tables of characters are those of Unicode 15.0. Characters that later versions assign are in
none of them.
-/

namespace Reckon.Unicode

/-- The character lies in one of the ranges; both ends belong to a range. -/
def inRanges (ranges : List (Nat × Nat)) (c : Char) : Bool :=
  ranges.any fun range => range.1 ≤ c.toNat && c.toNat ≤ range.2

end Reckon.Unicode
