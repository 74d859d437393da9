import CnfSearch.Text.Pieces

set_option autoImplicit false

/-!
# Blank characters

The characters that separate words are those with the Unicode property White_Space. This module
holds their table and the two readings of a line that depend on it: the line without its outer
blanks, and the line as a list of words.
-/

namespace CnfSearch.Text

/-- The ranges of code points with the property White_Space. -/
def blankRanges : List (Nat × Nat) :=
  [(0x09, 0x0D), (0x20, 0x20), (0x85, 0x85), (0xA0, 0xA0), (0x1680, 0x1680), (0x2000, 0x200A),
    (0x2028, 0x2029), (0x202F, 0x202F), (0x205F, 0x205F), (0x3000, 0x3000)]

/-- Whether a character separates words. -/
def isBlank (c : Char) : Bool :=
  blankRanges.any fun range => decide (range.1 ≤ c.toNat) && decide (c.toNat ≤ range.2)

/-- A line without the blanks at its two ends. -/
def trim (line : List Char) : List Char :=
  ((line.dropWhile isBlank).reverse.dropWhile isBlank).reverse

/-- The words of a line: its longest runs of characters that are not blank. -/
def words (line : List Char) : List (List Char) :=
  (pieces isBlank line).filter fun piece => !piece.isEmpty

end CnfSearch.Text
