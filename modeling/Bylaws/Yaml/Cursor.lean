import Bylaws.Yaml.Character

/-!
# Places in a YAML text

What is still to be read of a text, with the line and the column where that begins. Whether
something is part of a block depends on its column, so readers pass places on and not only the
remaining characters.
-/

namespace Bylaws.Yaml

/-- A place in a text. Lines and columns are counted from zero. -/
structure Cursor where
  rest : List Char
  /-- The number of characters that are still to be read. -/
  left : Nat := rest.length
  index : Nat := 0
  line : Nat := 0
  column : Nat := 0

/-- A space or a tab. -/
def isSpaceOrTab (c : Char) : Bool := c = ' ' || c = '\t'

/-- The mark of byte order, which has no width. -/
def byteOrderMark : Char := Char.ofNat 0xFEFF

namespace Cursor

/-- The next character, or the end mark. -/
def peek (c : Cursor) : Char := c.rest.headD endMark

/-- The character after `k` others, or the end mark. -/
def peekAt (c : Cursor) (k : Nat) : Char := (c.rest.drop k).headD endMark

def atEnd (c : Cursor) : Bool := c.rest.isEmpty

/-- The place after the next character. A carriage return before a line feed ends no line. -/
def next (c : Cursor) : Cursor :=
  match c.rest with
  | [] => c
  | ch :: rest =>
    let left := c.left - 1
    let index := c.index + 1
    if isNewline ch || (ch = '\r' && rest.head? ≠ some '\n') then
      { rest, left, index, line := c.line + 1, column := 0 }
    else
      { rest, left, index, line := c.line
        column := if ch = byteOrderMark then c.column else c.column + 1 }

/-- The place after a number of characters. -/
def forward (c : Cursor) : (count : Nat) → Cursor
  | 0 => c
  | count + 1 => c.next.forward count

/-- The characters of a class that follow, and the place after them. -/
def span (c : Cursor) (p : Char → Bool) : List Char × Cursor :=
  let s := c.rest.takeWhile p
  (s, c.forward s.length)

/-- The place after the characters of a class. -/
def skipWhile (c : Cursor) (p : Char → Bool) : Cursor := (c.span p).2

def skipSpaces (c : Cursor) : Cursor := c.skipWhile (· = ' ')

/-- The line end that follows, as it stands in a value, and the place after it. The two
separators of Unicode are kept, and all other line ends are line feeds. -/
def lineBreak? (c : Cursor) : Option (Char × Cursor) :=
  if c.peek = '\r' && c.peekAt 1 = '\n' then some ('\n', c.forward 2)
  else if c.peek = '\r' || c.peek = '\n' || c.peek.toNat = 0x85 then some ('\n', c.next)
  else if isNewline c.peek then some (c.peek, c.next)
  else none

/-- Whether a mark of three characters follows that ends at a blank. -/
def atMark (c : Cursor) (mark : String) : Bool :=
  c.rest.take 3 = mark.toList && isBlankOrEnd (c.peekAt 3)

/-- Whether a mark follows that starts or ends a document. -/
def atDocumentMark (c : Cursor) : Bool := c.atMark "---" || c.atMark "..."

/-- The place after a comment, if one follows. -/
def skipComment (c : Cursor) : Cursor :=
  if c.peek = '#' then c.skipWhile fun ch => !isLineEnd ch else c

/-- The place after the end of the line, if only spaces and a comment come before that. -/
def endLine? (c : Cursor) : Option Cursor :=
  let c := c.skipSpaces.skipComment
  match c.lineBreak? with
  | some (_, c) => some c
  | none => if c.atEnd then some c else none

end Cursor

/-- What a line end and the empty lines after it stand for where lines are folded: a single
line feed is a space. -/
def foldBreaks (first : Char) (more : List Char) : List Char :=
  if first ≠ '\n' then first :: more else if more.isEmpty then [' '] else more

end Bylaws.Yaml
