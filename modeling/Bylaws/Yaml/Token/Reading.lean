import Bylaws.Yaml.BlockText
import Bylaws.Yaml.PlainText
import Bylaws.Yaml.Token.Basic

/-!
# Reading tokens

A text is cut into tokens from left to right. A key without a question mark shows only at the
colon behind it, so the places where one may have begun are remembered, one for every level of
brackets, and the mark of the key is put there when its colon comes. Such a key stands in one
line and is not longer than 1024 characters.
-/

namespace Bylaws.Yaml

/-- A place where a key may have begun. -/
structure KeyPlace where
  /-- The number of tokens before it. -/
  count : Nat
  /-- Nothing but a key can stand there. -/
  required : Bool
  start : Cursor

/-- How far a text has been read. -/
structure Reading where
  cursor : Cursor
  /-- The tokens in reverse. -/
  tokens : List Token := []
  /-- The number of tokens. -/
  count : Nat := 0
  /-- The columns of the open blocks, the innermost first. -/
  indents : List Nat := []
  /-- Where a key may have begun, for every level of brackets, the innermost first. -/
  keys : List (Option KeyPlace) := [none]
  /-- A key, or an item of a block, may begin here. -/
  keysAllowed : Bool := true

namespace Reading

def inBrackets (r : Reading) : Bool := 1 < r.keys.length

def put (r : Reading) (t : Token) : Reading :=
  { r with tokens := t :: r.tokens, count := r.count + 1 }

/-- Puts tokens in behind the first `count` ones. -/
def putBehind (r : Reading) (count : Nat) (ts : List Token) : Reading :=
  let later := r.count - count
  { r with
    tokens := r.tokens.take later ++ ts.reverse ++ r.tokens.drop later
    count := r.count + ts.length }

/-- The least column of what belongs to the innermost block. -/
def leastColumn (r : Reading) : Nat :=
  match r.indents with
  | [] => 0
  | n :: _ => n + 1

/-- Ends the blocks that are indented more deeply than a column; brackets keep them open. -/
def closeBlocks (r : Reading) (goesOn : Nat → Bool) : Reading :=
  if r.inBrackets then r
  else
    let closed := (r.indents.takeWhile fun n => !goesOn n).length
    { r with
      indents := r.indents.drop closed
      tokens := List.replicate closed .blockEnd ++ r.tokens
      count := r.count + closed }

/-- Opens a block at a column if that is indented more deeply than the innermost one, and says
whether it did. -/
def openBlock (r : Reading) (column : Nat) : Reading × Bool :=
  if r.leastColumn ≤ column then ({ r with indents := column :: r.indents }, true)
  else (r, false)

/-! ## Places of keys -/

/-- Whether the text read since is too long, or not in the line, for a key that began there. -/
def isPast (r : Reading) (k : KeyPlace) : Bool :=
  k.start.line ≠ r.cursor.line || 1024 < r.cursor.index - k.start.index

/-- Gives up the places that are past. -/
def dropPast (r : Reading) : Except Fault Reading :=
  if r.keys.any fun k => k.any fun k => r.isPast k && k.required then .error .malformedYaml
  else .ok { r with keys := r.keys.map fun k => k.filter fun k => !r.isPast k }

/-- Gives up the place on the present level. -/
def dropKey (r : Reading) : Except Fault Reading :=
  match r.keys with
  | some k :: outer =>
    if k.required then .error .malformedYaml else .ok { r with keys := none :: outer }
  | _ => .ok r

/-- Remembers the present place, if a key may begin here. -/
def saveKey (r : Reading) : Except Fault Reading := do
  if r.keysAllowed then
    let r ← r.dropKey
    let required := !r.inBrackets && r.indents.head? = some r.cursor.column
    return { r with keys := some ⟨r.count, required, r.cursor⟩ :: r.keys.tail }
  else return r

/-! ## Marks -/

/-- Reads a mark of one character. -/
def mark (r : Reading) (t : Token) : Reading := { (r.put t) with cursor := r.cursor.next }

def readDocumentMark (r : Reading) (t : Token) : Except Fault Reading := do
  let r ← (r.closeBlocks fun _ => false).dropKey
  return { (r.put t) with cursor := r.cursor.forward 3, keysAllowed := false }

def readDeclaration (r : Reading) : Except Fault Reading := do
  let r ← (r.closeBlocks fun _ => false).dropKey
  match declaration? r.cursor with
  | some (d, cursor) => return { (r.put (.declaration d)) with cursor, keysAllowed := false }
  | none => throw .malformedYaml

def openBracket (r : Reading) (t : Token) : Except Fault Reading := do
  let r ← r.saveKey
  return { (r.mark t) with keys := none :: r.keys, keysAllowed := true }

def closeBracket (r : Reading) (t : Token) : Except Fault Reading := do
  let r ← r.dropKey
  if r.inBrackets then return { (r.mark t) with keys := r.keys.tail, keysAllowed := false }
  else throw .malformedYaml

def readComma (r : Reading) : Except Fault Reading := do
  return { ((← r.dropKey).mark .comma) with keysAllowed := true }

/-- Opens the block that a mark outside brackets may begin. -/
def openBlockFor (r : Reading) (block : Token) : Except Fault Reading :=
  if r.inBrackets then .ok r
  else if r.keysAllowed then
    let (r, isNew) := r.openBlock r.cursor.column
    .ok (if isNew then r.put block else r)
  else .error .malformedYaml

def readItem (r : Reading) : Except Fault Reading := do
  let r ← (← r.openBlockFor .blockList).dropKey
  return { (r.mark .item) with keysAllowed := true }

def readKey (r : Reading) : Except Fault Reading := do
  let r ← (← r.openBlockFor .blockDict).dropKey
  return { (r.mark .key) with keysAllowed := !r.inBrackets }

/-- Reads a colon, which makes a key of what stands at the place remembered. -/
def readValue (r : Reading) : Except Fault Reading := do
  match r.keys with
  | some k :: outer =>
    let r := { r with keys := none :: outer }
    let (r, isNew) := if r.inBrackets then (r, false) else r.openBlock k.start.column
    let r := r.putBehind k.count (if isNew then [.blockDict, .key] else [.key])
    return { (r.mark .value) with keysAllowed := false }
  | _ =>
    let r ← r.openBlockFor .blockDict
    return { (r.mark .value) with keysAllowed := !r.inBrackets }

/-! ## Names and scalars -/

/-- Reads a name or a scalar that can be a key. -/
def readNode (r : Reading) (read : Cursor → Except Fault (Token × Cursor)) :
    Except Fault Reading := do
  let r ← r.saveKey
  let (t, cursor) ← read r.cursor
  return { (r.put t) with cursor, keysAllowed := false }

def found {α : Type} (result : Option (α × Cursor)) (f : α → Token) :
    Except Fault (Token × Cursor) :=
  match result with
  | some (a, c) => .ok (f a, c)
  | none => .error .malformedYaml

def readQuoted (r : Reading) (double : Bool) : Except Fault Reading :=
  r.readNode fun c => (quotedText double c).map fun (s, c) => (.scalar s false, c)

def readPlain (r : Reading) : Except Fault Reading := do
  let r ← r.saveKey
  let (s, cursor, keysAllowed) := plainText r.inBrackets r.leastColumn r.cursor
  return { (r.put (.scalar s true)) with cursor, keysAllowed }

def readBlock (r : Reading) (folded : Bool) : Except Fault Reading := do
  let r ← r.dropKey
  let (s, cursor) ← blockText folded (max 1 r.leastColumn) r.cursor
  return { (r.put (.scalar s false)) with cursor, keysAllowed := true }

/-! ## The whole text -/

/-- Goes to the next token, over blanks, comments and line ends. -/
def skipBlanks (inBrackets : Bool) : (fuel : Nat) → Bool → Cursor → Bool × Cursor
  | 0, allowed, c => (allowed, c)
  | fuel + 1, allowed, c =>
    let c := c.skipSpaces.skipComment
    match c.lineBreak? with
    | some (_, c) => skipBlanks inBrackets fuel (allowed || !inBrackets) c
    | none => (allowed, c)

/-- Goes to the next token, and ends the blocks that do not go on there. -/
def toNext (r : Reading) : Except Fault Reading := do
  let c := r.cursor
  let c := if c.index = 0 && c.peek = byteOrderMark then c.next else c
  let (keysAllowed, cursor) := skipBlanks r.inBrackets (c.left + 1) r.keysAllowed c
  let r ← { r with cursor, keysAllowed }.dropPast
  return r.closeBlocks (· ≤ cursor.column)

/-- Reads one token and the marks that come with it. -/
def readToken (r : Reading) : Except Fault Reading :=
  let c := r.cursor
  let ch := c.peek
  let following := c.peekAt 1
  let alone := isBlankOrEnd following
  let inBrackets := r.inBrackets
  if ch = '%' && c.column = 0 then r.readDeclaration
  else if c.column = 0 && c.atMark "---" then r.readDocumentMark .documentStart
  else if c.column = 0 && c.atMark "..." then r.readDocumentMark .documentEnd
  else if ch = '[' then r.openBracket .openList
  else if ch = '\x7b' then r.openBracket .openDict
  else if ch = ']' then r.closeBracket .closeList
  else if ch = '\x7d' then r.closeBracket .closeDict
  else if ch = ',' then r.readComma
  else if ch = '-' && alone then r.readItem
  else if ch = '?' && (inBrackets || alone) then r.readKey
  else if ch = ':' && (inBrackets || alone) then r.readValue
  else if ch = '*' then r.readNode fun c => found (anchorName? c) .alias
  else if ch = '&' then r.readNode fun c => found (anchorName? c) .anchor
  else if ch = '!' then r.readNode fun c => found (tagText? c) .tag
  else if ch = '|' && !inBrackets then r.readBlock false
  else if ch = '>' && !inBrackets then r.readBlock true
  else if ch = '\'' then r.readQuoted false
  else if ch = '"' then r.readQuoted true
  else if startsPlain inBrackets ch following then r.readPlain
  else .error .malformedYaml

/-- The tokens that are certain when the text cannot be read further: those before the first
place at which a key may have begun. -/
def certain (r : Reading) : List Token :=
  let counts := r.keys.filterMap fun k => (k.filter fun k => !r.isPast k).map KeyPlace.count
  r.tokens.reverse.take (counts.min?.getD r.count)

/-- The tokens of the rest of the text, and the fault that ends them. -/
def readAll : (fuel : Nat) → Reading → List Token × Option Fault
  | 0, r => (r.certain, some .malformedYaml)
  | fuel + 1, r =>
    match r.toNext with
    | .error f => (r.certain, some f)
    | .ok next =>
      if next.cursor.atEnd then
        match (next.closeBlocks fun _ => false).dropKey with
        | .error f => (r.certain, some f)
        | .ok last => (last.tokens.reverse, none)
      else
        match next.readToken with
        | .error f => (r.certain, some f)
        | .ok r => readAll fuel r

end Reading

/-- The tokens of a text; where it cannot be read to its end, those before the fault, and the
fault. -/
def Token.ofText (s : List Char) : List Token × Option Fault :=
  Reading.readAll (s.length + 1) { cursor := { rest := s } }

end Bylaws.Yaml
