import Bylaws.Fault
import Bylaws.Text.Utf8

/-!
# Reading JSON

A text is cut into tokens, and the tokens are read by the grammar of JSON, without extensions,
keeping the collections that are open.
Escapes must name characters, texts hold no control characters, and numbers must be finite.
Integers that do not fit into 64 bits are read as binary numbers. Of equal keys the first keeps
its place and the last gives the value.
-/

namespace Bylaws.Json

inductive Token where
  | openList
  | closeList
  | openDict
  | closeDict
  | colon
  | comma
  | value (v : Value)

def isDigit (c : Char) : Bool := '0' ≤ c && c ≤ '9'

/-- The character that a letter stands for after a backslash. -/
def escaped? : Char → Option Char
  | '"' => some '"'
  | '\\' => some '\\'
  | '/' => some '/'
  | 'b' => some (Char.ofNat 8)
  | 'f' => some (Char.ofNat 12)
  | 'n' => some '\n'
  | 'r' => some '\r'
  | 't' => some '\t'
  | _ => none

/-- The characters of a text up to its closing quote, and what follows it. A pair of surrogates
is one character. -/
def readText : List Char → Option (List Char × List Char)
  | [] => none
  | '"' :: rest => some ([], rest)
  | '\\' :: 'u' :: a :: b :: c :: d :: '\\' :: 'u' :: e :: f :: g :: h :: rest => do
    let n ← Text.hexNumber? 4 [a, b, c, d]
    if 0xD800 ≤ n && n < 0xDC00 then
      let m ← Text.hexNumber? 4 [e, f, g, h]
      if 0xDC00 ≤ m && m < 0xE000 then
        let (s, rest) ← readText rest
        return (Char.ofNat (0x10000 + (n - 0xD800) * 0x400 + (m - 0xDC00)) :: s, rest)
      else none
    else if 0xDC00 ≤ n && n < 0xE000 then none
    else
      let (s, rest) ← readText ('\\' :: 'u' :: e :: f :: g :: h :: rest)
      return (Char.ofNat n :: s, rest)
  | '\\' :: 'u' :: a :: b :: c :: d :: rest => do
    let n ← Text.hexNumber? 4 [a, b, c, d]
    if 0xD800 ≤ n && n < 0xE000 then none
    else
      let (s, rest) ← readText rest
      return (Char.ofNat n :: s, rest)
  | '\\' :: c :: rest => do
    let c ← escaped? c
    let (s, rest) ← readText rest
    return (c :: s, rest)
  | c :: rest =>
    if c.toNat < 0x20 || c = '\\' then none
    else do
      let (s, rest) ← readText rest
      return (c :: s, rest)

/-- The digits after the point, and the rest. Without a point there are none. -/
def readFraction : List Char → Option (Option (List Char) × List Char)
  | '.' :: rest =>
    match rest.takeWhile isDigit with
    | [] => none
    | ds => some (some ds, rest.dropWhile isDigit)
  | rest => some (none, rest)

/-- The exponent, and the rest. -/
def readExponent (s : List Char) : Option (Option Int × List Char) :=
  let signed (negative : Bool) (s : List Char) : Option (Option Int × List Char) :=
    match s.takeWhile isDigit with
    | [] => none
    | ds =>
      let n : Int := Text.digitsValue ds
      some (some (if negative then -n else n), s.dropWhile isDigit)
  match s with
  | c :: rest =>
    if c = 'e' || c = 'E' then
      match rest with
      | '-' :: rest => signed true rest
      | '+' :: rest => signed false rest
      | rest => signed false rest
    else some (none, s)
  | [] => some (none, [])

/-- A binary number that is finite. -/
def finite? (x : Binary64) : Option Value :=
  match x with
  | .finite .. => some (.float x)
  | _ => none

/-- An integer, or the binary number nearest to it if it does not fit into 64 bits. -/
def integer? (negative : Bool) (n : Nat) : Option Value :=
  if negative then
    if n ≤ 9223372036854775808 then some (.int (-(n : Int)))
    else finite? (.ofDecimal true n 0)
  else if n ≤ 18446744073709551615 then some (.int n)
  else finite? (.ofDecimal false n 0)

/-- The number at the head of a text, and the rest. -/
def readNumber (s : List Char) : Option (Value × List Char) := do
  let (negative, s) : Bool × List Char :=
    match s with
    | '-' :: rest => (true, rest)
    | rest => (false, rest)
  let (whole, s) : List Char × List Char :=
    match s with
    | '0' :: rest => (['0'], rest)
    | rest => (rest.takeWhile isDigit, rest.dropWhile isDigit)
  if whole.isEmpty then none
  let (fraction, s) ← readFraction s
  let (exponent, s) ← readExponent s
  match fraction, exponent with
  | none, none => return (← integer? negative (Text.digitsValue whole), s)
  | fraction, exponent =>
    let ds := fraction.getD []
    let x := Binary64.ofDecimal negative (Text.digitsValue (whole ++ ds))
      (exponent.getD 0 - ds.length)
    return (← finite? x, s)

/-- The tokens of a text. Every token takes at least one character. -/
def tokens : (fuel : Nat) → List Char → Option (List Token)
  | _, [] => some []
  | 0, _ => none
  | fuel + 1, c :: rest =>
    if c = ' ' || c = '\n' || c = '\r' || c = '\t' then tokens fuel rest
    else if c = '[' then (tokens fuel rest).map (.openList :: ·)
    else if c = ']' then (tokens fuel rest).map (.closeList :: ·)
    else if c = '\x7b' then (tokens fuel rest).map (.openDict :: ·)
    else if c = '\x7d' then (tokens fuel rest).map (.closeDict :: ·)
    else if c = ':' then (tokens fuel rest).map (.colon :: ·)
    else if c = ',' then (tokens fuel rest).map (.comma :: ·)
    else if c = '"' then do
      let (s, rest) ← readText rest
      return .value (.text (String.ofList s)) :: (← tokens fuel rest)
    else if c = '-' || isDigit c then do
      let (v, rest) ← readNumber (c :: rest)
      return .value v :: (← tokens fuel rest)
    else
      match "null".toList.isPrefixOf? (c :: rest), "true".toList.isPrefixOf? (c :: rest),
          "false".toList.isPrefixOf? (c :: rest) with
      | some rest, _, _ => (tokens fuel rest).map (.value .null :: ·)
      | _, some rest, _ => (tokens fuel rest).map (.value (.bool true) :: ·)
      | _, _, some rest => (tokens fuel rest).map (.value (.bool false) :: ·)
      | none, none, none => none

/-- How many collections may lie in one another. -/
def nestingLimit : Nat := 1024

/-- A collection that is being read, with its members in reverse. -/
inductive Frame where
  | list (items : List Value)
  | dict (entries : List (Value × Value)) (key : String)

/-- What may come next. -/
inductive Expect where
  | value
  /-- A value, or the end of the list just opened. -/
  | valueOrEnd
  | key
  /-- A key, or the end of the dictionary just opened. -/
  | keyOrEnd
  | colon
  /-- A comma or the end of the innermost collection. -/
  | next
  deriving DecidableEq

/-- How far a text has been read: what is expected inside the open collections, the innermost
first, or the value that is complete. -/
inductive Progress where
  | inside (expect : Expect) (frames : List Frame)
  | complete (v : Value)

/-- The collection of a frame when it ends. -/
def Frame.close : Frame → Value
  | .list items => .list items.reverse
  | .dict entries _ => Value.ofEntries entries.reverse

/-- A frame with a value added. -/
def Frame.add (v : Value) : Frame → Frame
  | .list items => .list (v :: items)
  | .dict entries key => .dict ((.text key, v) :: entries) key

/-- Puts a complete value into the innermost collection. -/
def place (v : Value) : List Frame → Progress
  | [] => .complete v
  | f :: frames => .inside .next (f.add v :: frames)

/-- Opens a collection. -/
def enter (expect : Expect) (f : Frame) (frames : List Frame) : Option Progress :=
  if frames.length < nestingLimit then some (.inside expect (f :: frames)) else none

/-- What one token changes; `none` if it may not come here. -/
def advance (p : Progress) (t : Token) : Option Progress :=
  match p with
  | .complete _ => none
  | .inside e frames =>
    match e, t, frames with
    | .value, .value v, _ | .valueOrEnd, .value v, _ => some (place v frames)
    | .value, .openList, _ | .valueOrEnd, .openList, _ => enter .valueOrEnd (.list []) frames
    | .value, .openDict, _ | .valueOrEnd, .openDict, _ => enter .keyOrEnd (.dict [] "") frames
    | .valueOrEnd, .closeList, f :: outer => some (place f.close outer)
    | .keyOrEnd, .closeDict, f :: outer => some (place f.close outer)
    | .key, .value (.text k), .dict entries _ :: outer
    | .keyOrEnd, .value (.text k), .dict entries _ :: outer =>
      some (.inside .colon (.dict entries k :: outer))
    | .colon, .colon, _ => some (.inside .value frames)
    | .next, .comma, .list _ :: _ => some (.inside .value frames)
    | .next, .comma, .dict .. :: _ => some (.inside .key frames)
    | .next, .closeList, .list items :: outer => some (place (Frame.list items).close outer)
    | .next, .closeDict, .dict entries k :: outer =>
      some (place (Frame.dict entries k).close outer)
    | _, _, _ => none

/-- The value that some tokens make up. -/
def ofTokens? (ts : List Token) : Option Value :=
  match ts.foldlM advance (.inside .value []) with
  | some (.complete v) => some v
  | _ => none

/-- The value of a JSON text. -/
def read (text : List Char) : Except Fault Value :=
  match (tokens (text.length + 1) text).bind ofTokens? with
  | some v => .ok v
  | none => .error .malformedJson

/-- The value of the bytes of a JSON text. -/
def readBytes (bytes : List UInt8) : Except Fault Value :=
  match Text.decode bytes with
  | .ok text => read text
  | .error _ => .error .malformedJson

end Bylaws.Json
