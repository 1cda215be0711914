import Reckon.Unicode.Ranges

/-!
# Blank characters

The property White_Space, which decides what trimming removes.
-/

namespace Reckon.Unicode

/-- The blank characters. -/
def blankRanges : List (Nat × Nat) :=
  [(0x9, 0xD), (0x20, 0x20), (0x85, 0x85), (0xA0, 0xA0), (0x1680, 0x1680), (0x2000, 0x200A),
   (0x2028, 0x2029), (0x202F, 0x202F), (0x205F, 0x205F), (0x3000, 0x3000)]

/-- The character is blank: a space, a tab, a line break or one of their relatives. -/
def isBlank (c : Char) : Bool :=
  inRanges blankRanges c

end Reckon.Unicode
