/-!
# Characters of YAML

The character classes of the YAML grammar. The end of a text is marked by the null character,
which no YAML text may hold.
-/

namespace Bylaws.Yaml

/-- What stands for the end of a text. -/
def endMark : Char := Char.ofNat 0

/-- The line ends, apart from the carriage return. -/
def isNewline (c : Char) : Bool :=
  c = '\n' || c.toNat = 0x85 || c.toNat = 0x2028 || c.toNat = 0x2029

def isBreak (c : Char) : Bool := c = '\r' || isNewline c

/-- A line end or the end of the text. -/
def isLineEnd (c : Char) : Bool := c = endMark || isBreak c

/-- A space, a line end or the end of the text. -/
def isSpaceOrEnd (c : Char) : Bool := c = ' ' || isLineEnd c

/-- A blank, a line end or the end of the text. -/
def isBlankOrEnd (c : Char) : Bool := c = '\t' || isSpaceOrEnd c

/-- The characters of anchors, tag handles and directive names. -/
def isWordChar (c : Char) : Bool := c.isAlphanum || c = '-' || c = '_'

/-- Whether a character may stand in a YAML text. -/
def isAllowed (c : Char) : Bool :=
  let n := c.toNat
  n = 0x09 || n = 0x0A || n = 0x0D || (0x20 ≤ n && n ≤ 0x7E) || n = 0x85 ||
    (0xA0 ≤ n && n ≤ 0xD7FF) || (0xE000 ≤ n && n ≤ 0xFFFD) || (0x10000 ≤ n && n ≤ 0x10FFFF)

/-- The characters after which a text can be no plain scalar. -/
def isIndicator (c : Char) : Bool := "-?:,[]\x7b\x7d#&*!|>'\"%@`".toList.contains c

/-- The letter after a backslash for a character, and the character. -/
def escapes : List (Char × Char) :=
  [('0', Char.ofNat 0), ('a', Char.ofNat 7), ('b', Char.ofNat 8), ('t', '\t'), ('n', '\n'),
   ('v', Char.ofNat 0x0B), ('f', Char.ofNat 0x0C), ('r', '\r'), ('e', Char.ofNat 0x1B),
   ('"', '"'), ('\\', '\\'), ('N', Char.ofNat 0x85), ('_', Char.ofNat 0xA0),
   ('L', Char.ofNat 0x2028), ('P', Char.ofNat 0x2029)]

end Bylaws.Yaml
