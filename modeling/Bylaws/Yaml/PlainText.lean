import Bylaws.Yaml.Cursor

/-!
# Plain scalars

Text without quotes. It ends at a colon before a blank, at a comment, and, inside brackets, at
the marks of a collection. It may go on in the next line, if that is indented deeply enough, and
then its lines are folded.
-/

namespace Bylaws.Yaml

/-- The marks of collections in brackets. -/
def isBracketMark (c : Char) : Bool := ",[]\x7b\x7d".toList.contains c

/-- Whether a row of plain characters stops at a character with another one behind it. -/
def stopsPlain (inBrackets : Bool) (c following : Char) : Bool :=
  isBlankOrEnd c ||
    (c = ':' && (isBlankOrEnd following || (inBrackets && isBracketMark following))) ||
    (inBrackets && (c = '?' || isBracketMark c))

/-- The characters of one row, without blanks. -/
def plainRow (inBrackets : Bool) : List Char → List Char
  | [] => []
  | c :: rest =>
    if stopsPlain inBrackets c (rest.headD endMark) then []
    else c :: plainRow inBrackets rest

/-- The line ends of empty lines, and the place in the first line that is not empty. There is
none at a mark that starts or ends a document. -/
def plainBreaks : (fuel : Nat) → Cursor → Option (List Char) × Cursor
  | 0, c => (none, c)
  | fuel + 1, c =>
    if c.atDocumentMark then (none, c)
    else
      let c := c.skipSpaces
      match c.lineBreak? with
      | some (b, c) =>
        let (bs, c) := plainBreaks fuel c
        (bs.map (b :: ·), c)
      | none => (some [], c)

/-- What stands between two rows of a plain scalar, the place after it, and whether it holds a
line end. -/
def plainSpace (c : Cursor) : List Char × Cursor × Bool :=
  let (spaces, c) := c.span (· = ' ')
  match c.lineBreak? with
  | none => (spaces, c, false)
  | some (b, c) =>
    match plainBreaks (c.left + 1) c with
    | (none, c) => ([], c, true)
    | (some bs, c) => (foldBreaks b bs, c, true)

/-- The rows of a plain scalar with what stands between them, after `pending`. The last part of
the answer says whether a line ended after the scalar. -/
def plainRows (inBrackets : Bool) (indent : Nat) :
    (fuel : Nat) → (pending : List Char) → (broken : Bool) → Cursor → List Char × Cursor × Bool
  | 0, _, broken, c => ([], c, broken)
  | fuel + 1, pending, broken, c =>
    let row := plainRow inBrackets c.rest
    if c.peek = '#' || row.isEmpty then ([], c, broken)
    else
      let (space, c, broken) := plainSpace (c.forward row.length)
      if space.isEmpty || c.peek = '#' || (!inBrackets && c.column < indent) then
        (pending ++ row, c, broken)
      else
        let (s, c, broken) := plainRows inBrackets indent fuel space broken c
        (pending ++ row ++ s, c, broken)

/-- The plain scalar at a place, the place after it, and whether a line ended there. Outside
brackets its lines are indented at least to `indent`. -/
def plainText (inBrackets : Bool) (indent : Nat) (c : Cursor) : List Char × Cursor × Bool :=
  plainRows inBrackets indent (c.left + 1) [] false c

/-- Whether a plain scalar begins with a character that has another one behind it. A dash begins
one unless a blank follows, and so do a question mark and a colon outside brackets. -/
def startsPlain (inBrackets : Bool) (c following : Char) : Bool :=
  !(isBlankOrEnd c || isIndicator c) ||
    (!isBlankOrEnd following && (c = '-' || (!inBrackets && (c = '?' || c = ':'))))

end Bylaws.Yaml
