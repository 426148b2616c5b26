import Bylaws.Fault
import Bylaws.Yaml.Cursor

/-!
# Scalars in quotes

Between single quotes a doubled quote stands for itself, and nothing else is special. Between
double quotes a backslash begins an escape. Lines are folded in both, without the blanks around
a line end.
-/

namespace Bylaws.Yaml

/-- The line ends of the empty lines that follow, and the place in the first line that is not
empty. A mark that starts or ends a document must not come inside quotes. -/
def quotedBreaks : (fuel : Nat) → Cursor → Except Fault (List Char × Cursor)
  | 0, _ => .error .malformedYaml
  | fuel + 1, c =>
    if c.atDocumentMark then .error .malformedYaml
    else
      let c := c.skipWhile isSpaceOrTab
      match c.lineBreak? with
      | some (b, c) => (quotedBreaks fuel c).map fun (bs, c) => (b :: bs, c)
      | none => .ok ([], c)

/-- The blanks and line ends that follow, folded. -/
def quotedSpace (c : Cursor) : Except Fault (List Char × Cursor) :=
  let (blanks, c) := c.span isSpaceOrTab
  match c.lineBreak? with
  | some (b, c) => (quotedBreaks (c.left + 1) c).map fun (bs, c) => (foldBreaks b bs, c)
  | none => .ok (blanks, c)

/-- The number of digits of the code of a character after a letter. -/
def escapeWidth? : Char → Option Nat
  | 'x' => some 2
  | 'u' => some 4
  | 'U' => some 8
  | _ => none

/-- The characters that stand for themselves after a backslash, beside those of `escapes`. -/
def literalEscapes : List (Char × Char) := [('\t', '\t'), (' ', ' '), ('/', '/')]

/-- What the escape after a backslash stands for. An escaped line end stands for nothing. -/
def readEscape (c : Cursor) : Except Fault (List Char × Cursor) :=
  match c.lineBreak?, escapeWidth? c.peek with
  | some (_, c), _ => quotedBreaks (c.left + 1) c
  | none, some width =>
    match Text.hexNumber? width (c.rest.drop 1) with
    | some n =>
      if 0x80000000 ≤ n then .error .characterTooLarge
      else if 0x110000 ≤ n then .error .characterOutOfRange
      else .ok ([Text.ofCode n], c.forward (width + 1))
    | none => .error .malformedYaml
  | none, none =>
    match (escapes ++ literalEscapes).find? fun e => e.1 = c.peek with
    | some e => .ok ([e.2], c.next)
    | none => .error .malformedYaml

/-- The characters that may need care between quotes. -/
def isQuotedMark (c : Char) : Bool := c = '\'' || c = '"' || c = '\\' || isBlankOrEnd c

/-- The text up to the closing quote, and the place after that. -/
def quotedRows (double : Bool) : (fuel : Nat) → Cursor → Except Fault (List Char × Cursor)
  | 0, _ => .error .malformedYaml
  | fuel + 1, c =>
    let (row, c) := c.span fun ch => !isQuotedMark ch
    let after (r : List Char × Cursor) : Except Fault (List Char × Cursor) :=
      (quotedRows double fuel r.2).map fun (s, c) => (row ++ r.1 ++ s, c)
    match c.rest with
    | [] => .error .malformedYaml
    | ch :: _ =>
      if !double && ch = '\'' && c.peekAt 1 = '\'' then after (['\''], c.forward 2)
      else if ch = (if double then '"' else '\'') then .ok (row, c.next)
      else if double && ch = '\\' then do after (← readEscape c.next)
      else if isBlankOrEnd ch then do after (← quotedSpace c)
      else after ([ch], c.next)

/-- The scalar that begins with the quote at a place, and the place after it. -/
def quotedText (double : Bool) (c : Cursor) : Except Fault (List Char × Cursor) :=
  quotedRows double (c.left + 1) c.next

end Bylaws.Yaml
