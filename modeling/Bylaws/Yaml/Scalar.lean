import Bylaws.Decimal.Float
import Bylaws.Fault
import Bylaws.Text.Lowercase
import Bylaws.Text.Parts
import Bylaws.Yaml.Tag

/-!
# Values of scalars

The value that a text has under a tag. A tag that is written may not suit its text, so every
reading here can fail, each in its own way.
-/

namespace Bylaws.Yaml

/-- An integer in base ten. -/
def decimalInt (s : List Char) : Except Fault Int :=
  match Decimal.readInt s with
  | .ok n => .ok n
  | .error .malformed => .error (.integerText 10 (.text (String.ofList s)))
  | .error (.tooLong n) => .error (.integerTooLong n)

/-- An integer in another base. -/
def intIn (base : Nat) (s : List Char) : Except Fault Int :=
  match Decimal.readIn? base s with
  | some n => .ok n
  | none => .error (.integerText base (.text (String.ofList s)))

/-- The integer of a text without underscores and sign. A zero in front announces another
base. -/
def unsignedInt (s : List Char) : Except Fault Int :=
  match s with
  | [] => .error .emptyNumber
  | ['0'] => .ok 0
  | '0' :: 'b' :: rest => intIn 2 rest
  | '0' :: 'x' :: rest => intIn 16 rest
  | '0' :: _ => intIn 8 s
  | _ =>
    if s.contains ':' then do
      let parts ← (Text.parts ':' s).mapM decimalInt
      return parts.foldl (fun n d => 60 * n + d) 0
    else decimalInt s

/-- The sign in front of a number, and the text after it. -/
def signed (s : List Char) : Except Fault (Bool × List Char) :=
  match s with
  | [] => .error .emptyNumber
  | _ => .ok (Decimal.takeSign s)

def intValue (s : List Char) : Except Fault Value := do
  let (negative, s) ← signed (s.filter (· ≠ '_'))
  let n ← unsignedInt s
  return .int (if negative then -n else n)

/-- A binary number in decimal. -/
def decimalFloat (s : List Char) : Except Fault Binary64 :=
  match Decimal.readFloat? (Decimal.withoutBlanks s) with
  | some x => .ok x
  | none => .error (.floatText (String.ofList s))

/-- The sum of parts in base sixty, the last of which comes first and counts `weight`. -/
def addSixtieths (total : Binary64) (weight : Nat) : List Binary64 → Except Fault Binary64
  | [] => .ok total
  | x :: rest =>
    match Binary64.ofInt weight with
    | .infinite _ => .error .floatOverflow
    | w => addSixtieths (total.add (x.mul w)) (60 * weight) rest

/-- The binary number of a text without underscores, sign and capitals. -/
def unsignedFloat (s : List Char) : Except Fault Binary64 :=
  if s = ".inf".toList then .ok (.infinite false)
  else if s.contains ':' then do
    addSixtieths (.finite false 0 0) 1 (← (Text.parts ':' s).mapM decimalFloat).reverse
  else decimalFloat s

/-- The word for a value that is not a number. -/
def wordForNaN : List Char := ".nan".toList

/-- Whether a text is the word for a value that is not a number, in any spelling. -/
def isWordForNaN (s : List Char) : Bool :=
  (Decimal.takeSign (Text.lower (s.filter (· ≠ '_')))).2 = wordForNaN

def floatValue (s : List Char) : Except Fault Value := do
  let (negative, s) ← signed (Text.lower (s.filter (· ≠ '_')))
  if s = wordForNaN then return .float .notANumber
  let x ← unsignedFloat s
  return .float (if negative then x.neg else x)

def boolValue (s : List Char) : Except Fault Value :=
  let word := Text.lower s
  if Form.words ["yes", "true", "on"] word then .ok (.bool true)
  else if Form.words ["no", "false", "off"] word then .ok (.bool false)
  else .error (.entryMissing (String.ofList word))

/-! ## Dates and moments -/

def number (ds : List Char) : Nat := Text.digitsValue ds

/-- The date of a year, a month and a day. -/
def date (year month day : Nat) : Except Fault Date :=
  if year = 0 then .error (.yearOutOfRange year)
  else if month = 0 || 12 < month then .error (.clockPart "month" "1..12")
  else if day = 0 || Calendar.daysInMonth year month < day then .error .dayOutOfRange
  else .ok ⟨year, month, day⟩

/-- The offset of a zone, which is less than a day. -/
def zoneOffset : Option (Bool × List Char × List Char) → Except Fault Int
  | none => .ok 0
  | some (negative, hours, minutes) =>
    let seconds : Int := 3600 * number hours + 60 * number minutes
    let offset := if negative then -seconds else seconds
    if 86400 ≤ seconds then .error (.offsetTooLarge offset) else .ok offset

/-- The millionths of a second of the digits after the point. -/
def microseconds (ds : List Char) : Nat :=
  let ds := ds.take 6
  number ds * Nat.pow 10 (6 - ds.length)

def stampValue (t : Form.Stamp) : Except Fault Value := do
  let day := date (number t.year) (number t.month) (number t.day)
  match t.clock with
  | none => return .date (← day)
  | some (hour, minute, second, fraction) =>
    let offset ← t.zone.mapM zoneOffset
    let day ← day
    let (hour, minute, second) := (number hour, number minute, number second)
    if 24 ≤ hour then throw (.clockPart "hour" "0..23")
    if 60 ≤ minute then throw (.clockPart "minute" "0..59")
    if 60 ≤ second then throw (.clockPart "second" "0..59")
    return .moment ⟨day, hour, minute, second, microseconds fraction, offset⟩

/-- A line feed behind the last character of a date does not count. -/
def timestampValue (s : List Char) : Except Fault Value :=
  match Form.stamp? (if s.getLast? = some '\n' then s.dropLast else s) with
  | some t => stampValue t
  | none => .error (.noMember "NoneType" "groupdict")

/-! ## Bytes -/

/-- The six bits that a character stands for. -/
def sixBits? (c : Char) : Option Nat :=
  if 'A' ≤ c && c ≤ 'Z' then some (c.toNat - 65)
  else if 'a' ≤ c && c ≤ 'z' then some (c.toNat - 71)
  else if '0' ≤ c && c ≤ '9' then some (c.toNat + 4)
  else if c = '+' then some 62
  else if c = '/' then some 63
  else none

/-- The bytes of groups of four characters of six bits. `count` characters of a group are read,
the last of which left the bits `held`, and after them `signs` equals signs; a group that these
fill up is the last. Other characters do not count. -/
def groupedBytes? (count held signs : Nat) : List Char → Option (List UInt8)
  | [] => if count = 0 then some [] else none
  | c :: rest =>
    if c = '=' then
      if 2 ≤ count && 4 ≤ count + signs + 1 then some []
      else groupedBytes? count held (if 2 ≤ count then signs + 1 else signs) rest
    else
      match sixBits? c with
      | none => groupedBytes? count held signs rest
      | some n =>
        match count with
        | 0 => groupedBytes? 1 n 0 rest
        | 1 => (groupedBytes? 2 (n % 16) 0 rest).map ((held * 4 + n / 16).toUInt8 :: ·)
        | 2 => (groupedBytes? 3 (n % 4) 0 rest).map ((held * 16 + n / 4).toUInt8 :: ·)
        | _ => (groupedBytes? 0 0 0 rest).map ((held * 64 + n).toUInt8 :: ·)

def bytesValue (s : List Char) : Except Fault Value :=
  match groupedBytes? 0 0 0 s with
  | some bs => if s.all (·.toNat < 0x80) then .ok (.bytes bs) else .error .malformedYaml
  | none => .error .malformedYaml

/-- The value of a text under a tag. -/
def scalarValue (tag : Tag) (s : List Char) : Except Fault Value :=
  match tag with
  | .null => .ok .null
  | .bool => boolValue s
  | .int => intValue s
  | .float => floatValue s
  | .timestamp => timestampValue s
  | .binary => bytesValue s
  | .text => .ok (.text (String.ofList s))
  | _ => .error .malformedYaml

end Bylaws.Yaml
