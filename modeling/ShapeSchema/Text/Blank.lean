/-!
# Blank characters

The characters that trimming removes: the Unicode space separators, the tabulations and line ends
of ASCII, the two Unicode line separators and the byte order mark. The control `U+0085` is not one
of them.
-/

namespace ShapeSchema.Text

/-- Code points of the blank characters, as inclusive ranges. -/
def blankRanges : List (Nat × Nat) :=
  [(0x09, 0x0D), (0x20, 0x20), (0xA0, 0xA0), (0x1680, 0x1680), (0x2000, 0x200A),
   (0x2028, 0x2029), (0x202F, 0x202F), (0x205F, 0x205F), (0x3000, 0x3000), (0xFEFF, 0xFEFF)]

/-- Is the code point, or code unit, blank? -/
def isBlankPoint (n : Nat) : Bool :=
  blankRanges.any fun r => decide (r.1 ≤ n) && decide (n ≤ r.2)

/-- Is the character blank? -/
def isBlank (c : Char) : Bool := isBlankPoint c.toNat

/-- Drops the blank characters at both ends. -/
def trimChars (cs : List Char) : List Char :=
  ((cs.dropWhile isBlank).reverse.dropWhile isBlank).reverse

/-- Drops the blank characters at both ends. -/
def trim (s : String) : String := String.ofList (trimChars s.toList)

/-- A text of blank characters only. -/
def allBlank (s : String) : Bool := s.toList.all isBlank

end ShapeSchema.Text
