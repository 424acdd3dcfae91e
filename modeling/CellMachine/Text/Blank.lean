/-!
# Blank characters

The characters of the Unicode property White_Space, and the four information separators U+001C to
U+001F, which count as blank beside them.
-/

namespace CellMachine.Text

/-- The ranges of blank characters, by code point, both ends included. -/
def blankRanges : List (Nat × Nat) :=
  [(0x09, 0x0D), (0x1C, 0x20), (0x85, 0x85), (0xA0, 0xA0), (0x1680, 0x1680), (0x2000, 0x200A),
    (0x2028, 0x2029), (0x202F, 0x202F), (0x205F, 0x205F), (0x3000, 0x3000)]

/-- Does a code point lie in one of the ranges? -/
def inRanges (ranges : List (Nat × Nat)) (code : Nat) : Bool :=
  ranges.any fun (low, high) => decide (low ≤ code) && decide (code ≤ high)

/-- Is this a blank character? -/
def isBlank (c : Char) : Bool := inRanges blankRanges c.toNat

/-- One of the four information separators. -/
def isSeparator (c : Char) : Bool := decide (0x1C ≤ c.toNat) && decide (c.toNat ≤ 0x1F)

end CellMachine.Text
