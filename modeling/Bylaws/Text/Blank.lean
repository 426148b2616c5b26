/-!
# Blank characters

The blanks are the white space and separator characters of Unicode together with the four
information separators. Trimming removes them from both ends of a text.
-/

namespace Bylaws.Text

/-- The ranges of blank characters, ends included. -/
def blankRanges : List (Nat × Nat) :=
  [(0x9, 0xD), (0x1C, 0x20), (0x85, 0x85), (0xA0, 0xA0), (0x1680, 0x1680), (0x2000, 0x200A),
   (0x2028, 0x2029), (0x202F, 0x202F), (0x205F, 0x205F), (0x3000, 0x3000)]

/-- Membership of a character in one of several ranges of code points. -/
def inRanges (ranges : List (Nat × Nat)) (c : Char) : Bool :=
  ranges.any fun r => r.1 ≤ c.toNat && c.toNat ≤ r.2

def isBlank (c : Char) : Bool := inRanges blankRanges c

/-- A text without its leading blanks. -/
def trimStart (s : List Char) : List Char := s.dropWhile isBlank

/-- A text without the blanks at its two ends. -/
def trim (s : List Char) : List Char := (trimStart (trimStart s).reverse).reverse

example : blankRanges.length = 10 := by decide

example : trim " a b\t\n".toList = "a b".toList := by decide

end Bylaws.Text
