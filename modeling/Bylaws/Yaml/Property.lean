import Bylaws.Text.Utf8
import Bylaws.Yaml.QuotedText

/-!
# Properties and declarations

The names that stand beside a node, its anchor and its tag, and the lines in front of a document
that declare a version or an abbreviation of tags.
-/

namespace Bylaws.Yaml

/-- The name after the sign of an anchor or alias. -/
def anchorName? (c : Cursor) : Option (String × Cursor) :=
  let (name, c) := c.next.span isWordChar
  if name.isEmpty || !(isBlankOrEnd c.peek || "?:,]\x7d%@`".toList.contains c.peek) then none
  else some (String.ofList name, c)

/-- The characters of the name of a tag, beside escapes. -/
def isTagChar (c : Char) : Bool := isWordChar c || ";/?:@&=+$,.!~*'()[]".toList.contains c

/-- The bytes of a row of percent signs with two hexadecimal digits each. -/
def escapedBytes? : (fuel : Nat) → Cursor → Option (List UInt8 × Cursor)
  | 0, _ => none
  | fuel + 1, c =>
    if c.peek = '%' then do
      let b ← Text.hexNumber? 2 (c.rest.drop 1)
      let (bs, c) ← escapedBytes? fuel (c.forward 3)
      return (b.toUInt8 :: bs, c)
    else some ([], c)

/-- The name of a tag, in which escapes are the bytes of characters. -/
def tagChars? : (fuel : Nat) → Cursor → Option (List Char × Cursor)
  | 0, _ => none
  | fuel + 1, c => do
    let (row, c) := c.span isTagChar
    if c.peek = '%' then
      let (bytes, c) ← escapedBytes? (c.left + 1) c
      let escaped ← (Text.decode bytes).toOption
      let (more, c) ← tagChars? fuel c
      return (row ++ escaped ++ more, c)
    else return (row, c)

/-- The name of a tag, which is not empty. -/
def tagName? (c : Cursor) : Option (String × Cursor) := do
  let (name, c) ← tagChars? (c.left + 1) c
  if name.isEmpty then none else return (String.ofList name, c)

/-- The handle of a tag: one exclamation mark, or a word between two. -/
def tagHandle? (c : Cursor) : Option (String × Cursor) :=
  if c.peek ≠ '!' then none
  else if c.peekAt 1 = ' ' then some ("!", c.next)
  else
    let (word, d) := c.next.span isWordChar
    if d.peek = '!' then some (String.ofList ('!' :: word ++ ['!']), d.next) else none

/-- A tag as it is written: in full, or after the handle of an abbreviation. -/
structure TagText where
  handle : Option String
  name : String
  deriving DecidableEq, Repr

/-- The tag of a node whose kind is found from its form. -/
def unspecificTag : String := "!"

/-- The tag at a place, up to the next space or line end. -/
def tagText? (c : Cursor) : Option (TagText × Cursor) := do
  let (tag, c) ←
    if c.peekAt 1 = '<' then do
      let (name, c) ← tagName? (c.forward 2)
      if c.peek = '>' then some ((⟨none, name⟩ : TagText), c.next) else none
    else if isBlankOrEnd (c.peekAt 1) then some (⟨none, unspecificTag⟩, c.next)
    else do
      let word := (c.rest.drop 1).takeWhile fun ch => !isSpaceOrEnd ch
      let (handle, c) ← if word.contains '!' then tagHandle? c else some ("!", c.next)
      let (name, c) ← tagName? c
      some (⟨some handle, name⟩, c)
  if isSpaceOrEnd c.peek then return (tag, c) else none

/-- A line in front of a document. Declarations of other kinds have no meaning. -/
inductive Declaration where
  | version (major : Nat)
  | abbreviation (handle start : String)
  | other
  deriving DecidableEq, Repr

/-- A row of one or more digits. -/
def versionNumber? (c : Cursor) : Option (Nat × Cursor) :=
  let (ds, c) := c.span fun ch => '0' ≤ ch && ch ≤ '9'
  if ds.isEmpty then none
  else some (ds.foldl (fun n d => 10 * n + (d.toNat - 48)) 0, c)

/-- What the declaration with a name says. -/
def declared? (name : String) (c : Cursor) : Option (Declaration × Cursor) := do
  if name = "YAML" then
    let (major, c) ← versionNumber? c.skipSpaces
    if c.peek ≠ '.' then none
    let (_, c) ← versionNumber? c.next
    if isSpaceOrEnd c.peek then return (.version major, c) else none
  else if name = "TAG" then
    let (handle, c) ← tagHandle? c.skipSpaces
    if c.peek ≠ ' ' then none
    let (start, c) ← tagName? c.skipSpaces
    if isSpaceOrEnd c.peek then return (.abbreviation handle start, c) else none
  else return (.other, c.skipWhile fun ch => !isLineEnd ch)

/-- The declaration in the line at a place, and the place in the next line. -/
def declaration? (c : Cursor) : Option (Declaration × Cursor) := do
  let (name, c) := c.next.span isWordChar
  if name.isEmpty || !isSpaceOrEnd c.peek then none
  let (d, c) ← declared? (String.ofList name) c
  return (d, ← c.endLine?)

end Bylaws.Yaml
