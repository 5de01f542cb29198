/-!
# Blank Characters

The characters that trimming removes: those with the Unicode property
`White_Space`, twenty-five in all. The set is larger than the four that core's
`Char.isWhitespace` knows, and it leaves out the zero-width characters, which
do not have the property.

## Main definitions

* `isBlank`: Whether a character has the property.
* `trim`: A text without the blanks at its two ends.
-/

namespace OutboxCluster

namespace Text

/-- The code points with the property `White_Space`, as inclusive ranges. -/
def blankRanges : List (Nat × Nat) :=
  [(0x09, 0x0D), (0x20, 0x20), (0x85, 0x85), (0xA0, 0xA0), (0x1680, 0x1680),
   (0x2000, 0x200A), (0x2028, 0x2029), (0x202F, 0x202F), (0x205F, 0x205F),
   (0x3000, 0x3000)]

/-- Whether a character is blank. -/
def isBlank (c : Char) : Bool :=
  blankRanges.any fun (low, high) => low ≤ c.toNat && c.toNat ≤ high

/-- A text without the blanks at its two ends. -/
def trim (s : List Char) : List Char :=
  ((s.dropWhile isBlank).reverse.dropWhile isBlank).reverse

end Text

end OutboxCluster
