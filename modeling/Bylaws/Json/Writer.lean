import Bylaws.Fault

/-!
# Writing JSON

Values as JSON text, compact or with two spaces of indentation. Only quotes, backslashes and
control characters are escaped. Texts must hold whole characters, keys must be texts, integers
must fit into 64 bits, and nesting is bounded.
-/

namespace Bylaws.Json

/-- The escape of a character in a text. -/
def escapeChar (c : Char) : List Char :=
  if c = '"' then ['\\', '"']
  else if c = '\\' then ['\\', '\\']
  else if c = '\n' then ['\\', 'n']
  else if c = '\r' then ['\\', 'r']
  else if c = '\t' then ['\\', 't']
  else if c.toNat = 8 then ['\\', 'b']
  else if c.toNat = 12 then ['\\', 'f']
  else if c.toNat < 0x20 then '\\' :: 'u' :: Text.hex 4 c.toNat
  else [c]

/-- A text in quotes. -/
def quoted (s : List Char) : List Char := '"' :: s.flatMap escapeChar ++ ['"']

/-- A text in quotes, if it holds no half of a pair by itself. -/
def writeText (s : String) : Except Fault (List Char) :=
  if s.toList.any Text.isStandIn then .error .jsonSurrogate else .ok (quoted s.toList)

/-- Numbers are written positionally from five places after the point up to sixteen before it;
what is no number is null. -/
def floatLayout : Decimal.Layout := ⟨-5, 15, 1, "null", "null"⟩

def writeFloat (x : Binary64) : List Char :=
  match x with
  | .infinite _ => "null".toList
  | x => floatLayout.write x

def writeInt (n : Int) : Except Fault (List Char) :=
  if -9223372036854775808 ≤ n && n ≤ 18446744073709551615 then .ok (Decimal.intText n).toList
  else .error .jsonInteger

/-- Whether a list or dictionary lies too deep in other collections. The collections around it
are counted in one byte, which starts again from zero; the last value is the limit. Tuples count,
but are never refused themselves. -/
def isTooDeep (depth : Nat) : Bool := depth % 256 = 254

/-- A line end and the indentation of a depth, if the text is laid out in lines. -/
def newline (pretty : Bool) (depth : Nat) : List Char :=
  if pretty then '\n' :: List.replicate (2 * depth) ' ' else []

/-- Written members between brackets, one to a line if the text is laid out in lines. -/
def bracketed (pretty : Bool) (depth : Nat) (opening closing : Char) :
    List (List Char) → List Char
  | [] => [opening, closing]
  | first :: rest =>
    opening :: newline pretty (depth + 1) ++ first ++
      (rest.flatMap fun m => ',' :: newline pretty (depth + 1) ++ m) ++
      newline pretty depth ++ [closing]

mutual

/-- A value at a depth of nesting. -/
def writeAt (pretty : Bool) (depth : Nat) : Value → Except Fault (List Char)
  | .null => .ok "null".toList
  | .bool true => .ok "true".toList
  | .bool false => .ok "false".toList
  | .int n => writeInt n
  | .float x => .ok (writeFloat x)
  | .text s => writeText s
  | .list items =>
    if isTooDeep depth then .error .jsonDepth
    else (writeItems pretty (depth + 1) items).map (bracketed pretty depth '[' ']')
  | .tuple items => (writeItems pretty (depth + 1) items).map (bracketed pretty depth '[' ']')
  | .dict entries =>
    if isTooDeep depth then .error .jsonDepth
    else (writeEntries pretty (depth + 1) entries).map (bracketed pretty depth '\x7b' '\x7d')
  | .date d => writeText (Value.dateText d)
  | .moment t => writeText (Value.momentText "T" t)
  | v => .error (.unwritableJson v.kind)

def writeItems (pretty : Bool) (depth : Nat) : List Value → Except Fault (List (List Char))
  | [] => .ok []
  | v :: rest => do
    let first ← writeAt pretty depth v
    return first :: (← writeItems pretty depth rest)

def writeEntries (pretty : Bool) (depth : Nat) :
    List (Value × Value) → Except Fault (List (List Char))
  | [] => .ok []
  | (k, v) :: rest => do
    match k with
    | .text s =>
      let key ← writeText s
      let value ← writeAt pretty depth v
      let entry := key ++ (if pretty then [':', ' '] else [':']) ++ value
      return entry :: (← writeEntries pretty depth rest)
    | _ => throw .jsonKey

end

/-- A value as JSON text. -/
def write (pretty : Bool) (v : Value) : Except Fault String :=
  (writeAt pretty 0 v).map String.ofList

end Bylaws.Json
