/-!
# Blank text and control characters

A name is refused when it is blank, that is when nothing is left of it once white space is taken away.
White space is the Unicode property `White_Space`, so the no-break space counts and the zero-width space
does not.
-/

namespace ServiceContracts.Text

/-- The ranges of the Unicode property `White_Space`. -/
def whiteSpaceRanges : List (Nat × Nat) :=
  [(0x09, 0x0D), (0x20, 0x20), (0x85, 0x85), (0xA0, 0xA0), (0x1680, 0x1680), (0x2000, 0x200A),
    (0x2028, 0x2029), (0x202F, 0x202F), (0x205F, 0x205F), (0x3000, 0x3000)]

/-- Does a range of the list hold the character? -/
def inRanges (ranges : List (Nat × Nat)) (c : Char) : Bool :=
  ranges.any fun r => r.1 ≤ c.toNat && c.toNat ≤ r.2

/-- White space, in the sense of Unicode. -/
def isWhite (c : Char) : Bool := inRanges whiteSpaceRanges c

/-- Text of white space only, the empty text included. -/
def isBlank (s : String) : Bool := s.toList.all isWhite

/-- The general category `Cc`: the two blocks of control characters. -/
def isControl (c : Char) : Bool := c.toNat < 0x20 || (0x7F ≤ c.toNat && c.toNat ≤ 0x9F)

theorem isBlank_empty : isBlank "" = true := by decide

end ServiceContracts.Text
