/-!
# Blank text

Blank characters are those with the Unicode property `White_Space`. A value
that holds nothing else counts as not given.
-/

namespace Flowgraph.Text

/-- The ranges of `White_Space`, twenty-five characters in all. -/
def blankRanges : List (Nat × Nat) :=
  [(0x9, 0xd), (0x20, 0x20), (0x85, 0x85), (0xa0, 0xa0), (0x1680, 0x1680),
   (0x2000, 0x200a), (0x2028, 0x2029), (0x202f, 0x202f), (0x205f, 0x205f),
   (0x3000, 0x3000)]

/-- Whether a character is blank. -/
def isBlank (c : Char) : Bool :=
  blankRanges.any fun (first, last) => first ≤ c.toNat && c.toNat ≤ last

/-- Whether a text has no character that is not blank. -/
def isBlankText (s : String) : Bool := s.toList.all isBlank

/-- The text without the blanks it starts with. -/
def dropBlanks (s : List Char) : List Char := s.dropWhile isBlank

example : (blankRanges.map fun (first, last) => last + 1 - first).sum = 25 := by
  decide

end Flowgraph.Text
