import Bylaws.Fault
import Bylaws.Yaml.Cursor

/-!
# Block scalars

Indented lines after a bar, which keeps the line ends, or after a greater-than sign, which folds
them. The header may fix the indentation, and says what becomes of the line ends at the end of
the text: one is kept, none, or all.
-/

namespace Bylaws.Yaml

/-- What becomes of the line ends at the end of a block scalar. -/
inductive Chomping where
  | clip
  | strip
  | keep
  deriving DecidableEq, Repr

def chomping? : Char → Option Chomping
  | '+' => some .keep
  | '-' => some .strip
  | _ => none

/-- The header of a block scalar. -/
structure BlockHeader where
  chomping : Chomping := .clip
  /-- How much deeper than its parent the text is indented, if that is written. -/
  increment : Option Nat := none

/-- The header after the mark, and the place in the line below: a sign and a digit in either
order, of which both may be missing. -/
def blockHeader? (c : Cursor) : Option (BlockHeader × Cursor) := do
  let before := chomping? c.peek
  let c := if before.isSome then c.next else c
  let digit := if '0' ≤ c.peek && c.peek ≤ '9' then some (c.peek.toNat - 48) else none
  let c := if digit.isSome then c.next else c
  let after := if before.isNone && digit.isSome then chomping? c.peek else none
  let c := if after.isSome then c.next else c
  if digit = some 0 || !isSpaceOrEnd c.peek then none
  let c ← c.endLine?
  return ({ chomping := (before.or after).getD .clip, increment := digit }, c)

/-- The line ends of the empty lines that follow, the greatest column that spaces reach up to
the first character of the text, and the place of that. -/
def leadingLines : (fuel : Nat) → Cursor → List Char × Nat × Cursor
  | 0, c => ([], 0, c)
  | fuel + 1, c =>
    let (spaces, c) := c.span (· = ' ')
    let width := if spaces.isEmpty then 0 else c.column
    match c.lineBreak? with
    | some (b, c) =>
      let (bs, most, c) := leadingLines fuel c
      (b :: bs, max width most, c)
    | none => ([], width, c)

/-- The line ends of the lines that are empty up to the indentation, and the place there in the
first other line. -/
def indentedBreaks (indent : Nat) : (fuel : Nat) → Cursor → List Char × Cursor
  | 0, c => ([], c)
  | fuel + 1, c =>
    let spaces := c.rest.takeWhile (· = ' ')
    let c := c.forward (min spaces.length (indent - c.column))
    match c.lineBreak? with
    | some (b, c) =>
      let (bs, c) := indentedBreaks indent fuel c
      (b :: bs, c)
    | none => ([], c)

/-- A text with the line end of its last line and those of the empty lines below. -/
structure BlockLines where
  text : List Char := []
  lineEnd : List Char := []
  below : List Char := []

/-- The lines of a block scalar from a place at its indentation on. Between two lines of which
neither begins with a blank, folding turns a line feed into a space. -/
def blockLines (folded : Bool) (indent : Nat) :
    (fuel : Nat) → (above : List Char) → Cursor → BlockLines × Cursor
  | 0, _, c => ({}, c)
  | fuel + 1, above, c =>
    let startsBlank := isSpaceOrTab c.peek
    let (line, c) := c.span fun ch => !isLineEnd ch
    let (lineEnd, c) : List Char × Cursor :=
      match c.lineBreak? with
      | some (b, c) => ([b], c)
      | none => ([], c)
    let (below, c) := indentedBreaks indent (c.left + 1) c
    if c.column = indent && !c.atEnd then
      let joint : List Char :=
        if folded && lineEnd = ['\n'] && !startsBlank && !isSpaceOrTab c.peek then
          if below.isEmpty then [' '] else []
        else lineEnd
      let (lines, c) := blockLines folded indent fuel below c
      ({ lines with text := above ++ line ++ joint ++ lines.text }, c)
    else ({ text := above ++ line, lineEnd, below }, c)

/-- The text of some lines when its end is chomped. -/
def BlockLines.chomp (l : BlockLines) : Chomping → List Char
  | .strip => l.text
  | .clip => l.text ++ l.lineEnd
  | .keep => l.text ++ l.lineEnd ++ l.below

/-- The block scalar whose mark is at a place, and the place after it. Its lines are indented at
least to `least`. -/
def blockText (folded : Bool) (least : Nat) (c : Cursor) : Except Fault (List Char × Cursor) :=
  match blockHeader? c.next with
  | none => .error .malformedYaml
  | some (header, c) =>
    let fuel := c.left + 1
    let (indent, above, c) : Nat × List Char × Cursor :=
      match header.increment with
      | some n =>
        let indent := least + n - 1
        let (bs, c) := indentedBreaks indent fuel c
        (indent, bs, c)
      | none =>
        let (bs, most, c) := leadingLines fuel c
        (max least most, bs, c)
    if c.column = indent && !c.atEnd then
      let (lines, c) := blockLines folded indent fuel above c
      .ok (lines.chomp header.chomping, c)
    else .ok (BlockLines.chomp { below := above } header.chomping, c)

end Bylaws.Yaml
