import Bylaws.Fault
import Bylaws.Yaml.Tag

/-!
# Writing YAML

Values as YAML text in block style. A scalar is written plain where that reads back as the same
value, between single quotes where its characters allow it, and between double quotes
otherwise. Long texts are folded at spaces once a line is longer than eighty characters. A list
that is the value of an entry is not indented.
-/

namespace Bylaws.Yaml

/-- What a text allows as a way of writing it. -/
structure Features where
  plain : Bool
  singleQuoted : Bool
  multiline : Bool

/-- Whether a character of a text can only be written between double quotes. -/
def isSpecial (c : Char) : Bool :=
  let n := Text.code c
  !(c = '\n' || (0x20 ≤ n && n ≤ 0x7E) ||
    (n ≠ 0xFEFF && (n = 0x85 || (0xA0 ≤ n && n ≤ 0xD7FF) || (0xE000 ≤ n && n ≤ 0xFFFD) ||
      (0x10000 ≤ n && n < 0x10FFFF))))

/-- Whether a text begins with a mark that a plain scalar cannot begin with. -/
def startsMarked : List Char → Bool
  | [] => false
  | c :: rest =>
    let alone := isBlankOrEnd (rest.headD endMark)
    "#,[]\x7b\x7d&*!|>'\"%@`".toList.contains c || ((c = '?' || c = ':' || c = '-') && alone)

/-- Whether a text after its first character `previous` holds a mark that ends a plain scalar:
a colon before a blank or a number sign after one. -/
def holdsMark (previous : Char) : List Char → Bool
  | [] => false
  | c :: rest =>
    (c = ':' && isBlankOrEnd (rest.headD endMark)) || (c = '#' && isBlankOrEnd previous) ||
      holdsMark c rest

/-- Whether some two characters of a text that stand side by side are of two classes. -/
def sideBySide (p q : Char → Bool) : List Char → Bool
  | a :: b :: rest => (p a && q b) || sideBySide p q (b :: rest)
  | _ => false

/-- What a text that is not empty allows. -/
def Features.of (s : List Char) : Features :=
  let marked := startsMarked s || holdsMark (s.headD ' ') s.tail ||
    ("---".toList.isPrefixOf s) || ("...".toList.isPrefixOf s)
  let multiline := s.any isNewline
  let isEdge (c : Char) : Bool := c = ' ' || isNewline c
  let loose := isEdge (s.headD 'x') || isEdge (s.getLastD 'x')
  let special := s.any isSpecial || sideBySide (· = ' ') isNewline s
  let spacedBreak := sideBySide isNewline (· = ' ') s
  { plain := !(marked || multiline || loose || special || spacedBreak)
    singleQuoted := !(special || spacedBreak)
    multiline }

/-- A scalar to be written: its text, the length of its tag, whether it reads back when written
plain, and whether it reads back when written in quotes. -/
structure Scalar where
  text : List Char
  tagLength : Nat
  readsPlain : Bool

/-- The text of a number, with a point before an exponent. -/
def floatText (x : Binary64) : List Char :=
  match x with
  | .notANumber => ".nan".toList
  | .infinite s => if s then "-.inf".toList else ".inf".toList
  | x =>
    let s := (Value.floatText x).toList
    if s.contains '.' then s
    else s.takeWhile (· ≠ 'e') ++ ".0".toList ++ s.dropWhile (· ≠ 'e')

/-- The scalar for a value that is no collection. -/
def scalar? (v : Value) : Except Fault (Option Scalar) :=
  match v with
  | .null => .ok (some ⟨"null".toList, 6, true⟩)
  | .bool b => .ok (some ⟨(if b then "true" else "false").toList, 6, true⟩)
  | .int n => (Value.intText n).map fun s => some ⟨s.toList, 5, true⟩
  | .float x => .ok (some ⟨floatText x, 7, true⟩)
  | .text s => .ok (some ⟨s.toList, 5, Tag.ofPlain s.toList = .text⟩)
  | .date d => .ok (some ⟨(Value.dateText d).toList, 11, true⟩)
  | .moment t => .ok (some ⟨(Value.momentText " " t).toList, 11, true⟩)
  | _ => .ok none

/-! ## The pen -/

/-- A text being written. The characters are in reverse. -/
structure Pen where
  written : List Char := []
  column : Nat := 0
  /-- The last thing written was a blank or a line end. -/
  atBlank : Bool := true
  /-- Nothing but indentation and list marks stands in the line. -/
  atIndent : Bool := true
  /-- A plain scalar was written last that more text could be taken to continue. -/
  isOpen : Bool := false

namespace Pen

/-- Where lines are folded. -/
def width : Nat := 80

/-- Writes characters into the line. -/
def put (p : Pen) (s : List Char) : Pen :=
  { p with written := s.reverse ++ p.written, column := p.column + s.length }

/-- Ends the line with a given line end. -/
def breakWith (p : Pen) (c : Char) : Pen :=
  { p with written := c :: p.written, column := 0, atBlank := true, atIndent := true }

def break_ (p : Pen) : Pen := p.breakWith '\n'

/-- Goes to an indentation, in a new line if the present one has gone further. -/
def indentTo (p : Pen) (indent : Nat) : Pen :=
  let p :=
    if !p.atIndent || indent < p.column || (p.column = indent && !p.atBlank) then p.break_ else p
  if p.column < indent then
    { p.put (List.replicate (indent - p.column) ' ') with atBlank := true }
  else p

/-- Writes a mark, after a space if it needs one. -/
def mark (p : Pen) (s : List Char) (needsBlank : Bool) (keepsIndent : Bool) : Pen :=
  let p := p.put (if p.atBlank || !needsBlank then s else ' ' :: s)
  { p with atBlank := false, atIndent := p.atIndent && keepsIndent, isOpen := false }

/-- Writes a row of line ends; a line feed at its head is written twice. -/
def breaks (p : Pen) (s : List Char) : Pen :=
  let p := if s.head? = some '\n' then p.break_ else p
  s.foldl (fun p c => if c = '\n' then p.break_ else p.breakWith c) p

end Pen

/-! ## Scalars -/

/-- Cuts a text into rows of spaces, rows of line ends, and other characters between them. -/
def chunks (s : List Char) : List (List Char) :=
  let kind (c : Char) : Nat := if c = ' ' then 0 else if isNewline c then 1 else 2
  s.splitBy fun a b => kind a == kind b

/-- Writes the chunks of a plain scalar. A single space between words is a place to fold. -/
def putPlain (indent : Nat) (fold : Bool) : List (List Char) → Pen → Pen
  | [], p => p
  | chunk :: rest, p =>
    if chunk = [' '] && fold && Pen.width < p.column then
      putPlain indent fold rest { p.indentTo indent with atBlank := false, atIndent := false }
    else putPlain indent fold rest (p.put chunk)

def writePlain (indent : Nat) (fold root : Bool) (s : List Char) (p : Pen) : Pen :=
  let p := { p with isOpen := p.isOpen || root }
  if s.isEmpty then p
  else
    let p := if p.atBlank then p else p.put [' ']
    putPlain indent fold (chunks s) { p with atBlank := false, atIndent := false }

/-- A text with its single quotes doubled. -/
def doubleQuotes (s : List Char) : List Char :=
  s.flatMap fun c => if c = '\'' then ['\'', '\''] else [c]

/-- Writes the chunks of a scalar between single quotes. A single space inside the scalar is a
place to fold. -/
def putSingle (indent : Nat) (fold : Bool) : (first : Bool) → List (List Char) → Pen → Pen
  | _, [], p => p
  | first, chunk :: rest, p =>
    let p :=
      if chunk.all (· = ' ') then
        if chunk.length = 1 && fold && Pen.width < p.column && !first && !rest.isEmpty then
          p.indentTo indent
        else p.put chunk
      else if chunk.all isNewline then (p.breaks chunk).indentTo indent
      else p.put (doubleQuotes chunk)
    putSingle indent fold false rest p

def writeSingle (indent : Nat) (fold : Bool) (s : List Char) (p : Pen) : Pen :=
  (putSingle indent fold true (chunks s) (p.mark ['\''] true false)).mark ['\''] false false

/-- Whether a character is escaped between double quotes. -/
def isEscaped (c : Char) : Bool :=
  let n := c.toNat
  c = '"' || c = '\\' || n = 0x85 || n = 0x2028 || n = 0x2029 || n = 0xFEFF ||
    !((0x20 ≤ n && n ≤ 0x7E) || (0xA0 ≤ n && n ≤ 0xD7FF) || (0xE000 ≤ n && n ≤ 0xFFFD))

/-- A hexadecimal number in capitals. -/
def capitalHex (width n : Nat) : List Char := (Text.hex width n).map Char.toUpper

/-- The escape of a character between double quotes. -/
def escape (c : Char) : List Char :=
  match escapes.find? fun e => e.2 = c with
  | some e => ['\\', e.1]
  | none =>
    let n := Text.code c
    if n ≤ 0xFF then '\\' :: 'x' :: capitalHex 2 n
    else if n ≤ 0xFFFF then '\\' :: 'u' :: capitalHex 4 n
    else '\\' :: 'U' :: capitalHex 8 n

/-- Writes the characters of a scalar between double quotes. `held` are the characters, in
reverse, that are not written yet. A line is folded at a space, or where nothing is held, with a
backslash at its end, and with another one in front of a space that would begin the next line. -/
def putDouble (indent : Nat) (fold : Bool) (first : Bool) (held : List Char) :
    List Char → Pen → Pen
  | [], p => p.put held.reverse
  | c :: rest, p =>
    let inside := !first && !rest.isEmpty && fold
    if isEscaped c then
      let p := (p.put held.reverse).put (escape c)
      if inside && Pen.width + 1 < p.column then
        putDouble indent fold false [] rest (nextLine indent rest p)
      else putDouble indent fold false [] rest p
    else if inside && (c = ' ' || held.isEmpty) && Pen.width < p.column + held.length then
      putDouble indent fold false [c] rest (nextLine indent (c :: rest) (p.put held.reverse))
    else putDouble indent fold false (c :: held) rest p
where
  /-- Folds the line in front of the characters that follow. -/
  nextLine (indent : Nat) (following : List Char) (p : Pen) : Pen :=
    let p := { (p.put ['\\']).indentTo indent with atBlank := false, atIndent := false }
    if following.head? = some ' ' then p.put ['\\'] else p

def writeDouble (indent : Nat) (fold : Bool) (s : List Char) (p : Pen) : Pen :=
  (putDouble indent fold true [] s (p.mark ['"'] true false)).mark ['"'] false false

/-- Writes a scalar. The key of an entry stands in one line. -/
def writeScalar (indent : Nat) (root key : Bool) (x : Scalar) (p : Pen) : Pen :=
  if x.text.isEmpty then
    if x.readsPlain && !key then writePlain indent (!key) root [] p
    else writeSingle indent (!key) [] p
  else
    let f := Features.of x.text
    if x.readsPlain && f.plain && !(key && f.multiline) then
      writePlain indent (!key) root x.text p
    else if f.singleQuoted && !(key && f.multiline) then writeSingle indent (!key) x.text p
    else writeDouble indent (!key) x.text p

/-- Whether a value can be a key in front of a colon without a question mark. -/
def isSimpleKey (v : Value) : Except Fault Bool := do
  match ← scalar? v with
  | some x =>
    return x.tagLength + x.text.length < 128 && !x.text.isEmpty && !x.text.any isNewline
  | none =>
    match v with
    | .tuple items => return items.isEmpty
    | _ => return false

/-! ## Collections -/

/-- Where a node stands. -/
inductive Place where
  | root
  | item
  /-- A key in front of a colon. -/
  | key
  /-- A key after a question mark, or the value of an entry. -/
  | entry
  deriving DecidableEq

/-- The indentation of a block inside another one. -/
def deeper : Option Nat → Nat
  | none => 0
  | some n => n + 2

/-- The indentation of the folded lines of a scalar. -/
def scalarIndent : Option Nat → Nat
  | none => 2
  | some n => n + 2

/-- The indentation of a list; as the value of an entry it is not indented further. -/
def listIndent (indent : Option Nat) (place : Place) (p : Pen) : Nat :=
  match indent with
  | some n => if (place = .entry || place = .key) && !p.atIndent then n else n + 2
  | none => 0

mutual

/-- Writes a node inside a block of some indentation. -/
def writeNode (indent : Option Nat) (place : Place) : Value → Pen → Except Fault Pen
  | .list [], p => .ok ((p.mark ['['] true false).mark [']'] false false)
  | .tuple [], p => .ok ((p.mark ['['] true false).mark [']'] false false)
  | .dict [], p => .ok ((p.mark ['\x7b'] true false).mark ['\x7d'] false false)
  | .list (v :: rest), p => writeItems (listIndent indent place p) (v :: rest) p
  | .tuple (v :: rest), p => writeItems (listIndent indent place p) (v :: rest) p
  | .dict (e :: rest), p => writeEntries (deeper indent) (e :: rest) p
  | v, p => do
    match ← scalar? v with
    | some x => return writeScalar (scalarIndent indent) (place = .root) (place = .key) x p
    | none => throw .unwritableYaml

/-- Writes the items of a list. -/
def writeItems (indent : Nat) : List Value → Pen → Except Fault Pen
  | [], p => .ok p
  | v :: rest, p => do
    let p := (p.indentTo indent).mark ['-'] true true
    writeItems indent rest (← writeNode (some indent) .item v p)

/-- Writes the entries of a dictionary. -/
def writeEntries (indent : Nat) : List (Value × Value) → Pen → Except Fault Pen
  | [], p => .ok p
  | (k, v) :: rest, p => do
    let p := p.indentTo indent
    let p ←
      if ← isSimpleKey k then do
        let p ← writeNode (some indent) .key k p
        pure (p.mark [':'] false false)
      else do
        let p ← writeNode (some indent) .entry k (p.mark ['?'] true true)
        pure ((p.indentTo indent).mark [':'] true true)
    writeEntries indent rest (← writeNode (some indent) .entry v p)

end
/-- A value as a YAML text. A plain scalar alone is followed by an end mark. -/
def write (v : Value) : Except Fault String := do
  let p ← writeNode none .root v {}
  let isOpen := p.isOpen
  let p := p.indentTo 0
  let p := if isOpen then ((p.mark "...".toList true false).indentTo 0) else p
  return String.ofList p.written.reverse

end Bylaws.Yaml
