set_option autoImplicit false

/-!
# Blank text

A character is blank when it has the property White_Space of the Unicode standard. A text is blank
when all its characters are; the empty text is blank.
-/

namespace KeyLease.Text

/-- The ranges of code points with the property White_Space. -/
def blankRanges : List (Nat × Nat) :=
  [(0x0009, 0x000D), (0x0020, 0x0020), (0x0085, 0x0085), (0x00A0, 0x00A0), (0x1680, 0x1680),
   (0x2000, 0x200A), (0x2028, 0x2029), (0x202F, 0x202F), (0x205F, 0x205F), (0x3000, 0x3000)]

/-- Whether a code point lies in one of the ranges. -/
def inRanges (ranges : List (Nat × Nat)) (n : Nat) : Bool :=
  ranges.any fun (lo, hi) => lo ≤ n && n ≤ hi

/-- Whether a character is white space. -/
def isBlankChar (c : Char) : Bool := inRanges blankRanges c.toNat

/-- Whether a text holds nothing but white space. -/
def isBlank (s : String) : Bool := s.toList.all isBlankChar

end KeyLease.Text
