import Bylaws.Decimal.Integer
import Bylaws.Decimal.Shortest
import Bylaws.Text.Quoted
import Bylaws.Value.Basic

/-!
# The text of values

A value is shown inside messages and collections with texts in quotes, and stands in a
document in its plain form, where a text is itself. An integer beyond the digit limit has no
text, and neither has a value that holds one. A collection within itself is shown as three dots
between its brackets.
-/

namespace Bylaws.Value

/-- Numbers are shown positionally from four places after the point up to sixteen before it. -/
def floatLayout : Decimal.Layout := ⟨-4, 15, 2, "inf", "nan"⟩

def floatText (x : Binary64) : String := String.ofList (floatLayout.write x)

/-- The text of an integer within the digit limit. -/
def intText? (n : Int) : Option String :=
  if Decimal.isTooLong n then none else some (Decimal.intText n)

/-- A number in decimal, with zeros in front up to a width. -/
def padded (width n : Nat) : String :=
  let ds := (Nat.repr n).toList
  String.ofList (Decimal.zeros (width - ds.length) ++ ds)

def dateText (d : Date) : String :=
  padded 4 d.year ++ "-" ++ padded 2 d.month ++ "-" ++ padded 2 d.day

/-- An offset from universal time; the seconds are left out if there are none. -/
def offsetText (seconds : Int) : String :=
  let n := seconds.natAbs
  (if seconds < 0 then "-" else "+") ++ padded 2 (n / 3600) ++ ":" ++ padded 2 (n / 60 % 60) ++
    (if n % 60 = 0 then "" else ":" ++ padded 2 (n % 60))

/-- A moment with its parts apart by `separator`. -/
def momentText (separator : String) (t : Moment) : String :=
  dateText t.date ++ separator ++ padded 2 t.hour ++ ":" ++ padded 2 t.minute ++ ":" ++
    padded 2 t.second ++
    (if t.microsecond = 0 then "" else "." ++ padded 6 t.microsecond) ++
    (match t.offset with | none => "" | some o => offsetText o)

/-- An offset as a whole number of days and the seconds that remain. -/
def shownOffset (seconds : Int) : String :=
  let days := Int.fdiv seconds 86400
  let rest := Int.fmod seconds 86400
  let parts :=
    (if days = 0 then [] else ["days=" ++ Decimal.intText days]) ++
      (if rest = 0 then [] else ["seconds=" ++ Decimal.intText rest])
  "datetime.timedelta(" ++ (if parts.isEmpty then "0" else String.intercalate ", " parts) ++ ")"

def shownDate (d : Date) : String :=
  "datetime.date(" ++ String.intercalate ", " ([d.year, d.month, d.day].map Nat.repr) ++ ")"

/-- A moment by its parts; seconds and microseconds at the end are left out if they are zero. -/
def shownMoment (t : Moment) : String :=
  let clock :=
    if t.microsecond ≠ 0 then [t.second, t.microsecond]
    else if t.second ≠ 0 then [t.second] else []
  let numbers := [t.date.year, t.date.month, t.date.day, t.hour, t.minute] ++ clock
  "datetime.datetime(" ++ String.intercalate ", " (numbers.map Nat.repr) ++
    (match t.offset with
      | none => ""
      | some 0 => ", tzinfo=datetime.timezone.utc"
      | some o => ", tzinfo=datetime.timezone(" ++ shownOffset o ++ ")") ++ ")"

/-- One byte inside quotes. -/
def quotedByte (quote : Char) (b : UInt8) : List Char :=
  let c := Char.ofNat b.toNat
  if c = quote || c = '\\' then ['\\', c]
  else if c = '\n' then ['\\', 'n']
  else if c = '\r' then ['\\', 'r']
  else if c = '\t' then ['\\', 't']
  else if 0x20 ≤ b.toNat && b.toNat < 0x7F then [c]
  else '\\' :: 'x' :: Text.hex 2 b.toNat

def shownBytes (bs : List UInt8) : String :=
  let quote := Text.quoteFor (bs.map fun b => Char.ofNat b.toNat)
  String.ofList ('b' :: quote :: bs.flatMap (quotedByte quote) ++ [quote])

def shownText (s : String) : String := String.ofList (Text.quoted s.toList)

/-- A list of shown items between brackets; a tuple of one item keeps a comma. -/
def enclosed (opening closing : String) (items : List String) : String :=
  opening ++ String.intercalate ", " items ++ closing

/-- What stands for a collection within itself. -/
def ellipsis : Value → String
  | dict _ => "\x7b...\x7d"
  | _ => "[...]"

mutual

/-- A value as it is shown inside collections with labels, for each of which a text stands. -/
def shownWithin? (around : List (Nat × String)) : Value → Option String
  | null => some "None"
  | bool true => some "True"
  | bool false => some "False"
  | int n => intText? n
  | float x => some (floatText x)
  | text s => some (shownText s)
  | list items => (shownItems? around items).map (enclosed "[" "]")
  | tuple items =>
    (shownItems? around items).map fun
      | [one] => "(" ++ one ++ ",)"
      | several => enclosed "(" ")" several
  | dict entries => (shownEntries? around entries).map (enclosed "\x7b" "\x7d")
  | set [] => some "set()"
  | set (item :: items) => (shownItems? around (item :: items)).map (enclosed "\x7b" "\x7d")
  | constant v => shownWithin? around v
  | date d => some (shownDate d)
  | moment t => some (shownMoment t)
  | bytes bs => some (shownBytes bs)
  | loop label v =>
    match around.lookup label with
    | some s => some s
    | none => shownWithin? ((label, ellipsis v) :: around) v
  | again label => some ((around.lookup label).getD "...")

def shownItems? (around : List (Nat × String)) : List Value → Option (List String)
  | [] => some []
  | v :: rest =>
    match shownWithin? around v, shownItems? around rest with
    | some s, some ss => some (s :: ss)
    | _, _ => none

def shownEntries? (around : List (Nat × String)) :
    List (Value × Value) → Option (List String)
  | [] => some []
  | (k, v) :: rest =>
    match shownWithin? around k, shownWithin? around v, shownEntries? around rest with
    | some s, some t, some ss => some ((s ++ ": " ++ t) :: ss)
    | _, _, _ => none

end

/-- A value as messages and collections show it. -/
def shown? (v : Value) : Option String := shownWithin? [] v

/-- A value as it stands in a document. -/
def plain? : Value → Option String
  | text s => some s
  | date d => some (dateText d)
  | moment t => some (momentText " " t)
  | constant v => plain? v
  | v => v.shown?

example : (list [null, int (-1), text "it's", tuple [bool true]]).shown? =
    some "[None, -1, \"it's\", (True,)]" := by decide +kernel

example : (loop 0 (dict [(text "a", list [again 0])])).shown? =
    some "\x7b'a': [\x7b...\x7d]\x7d" := by decide +kernel

end Bylaws.Value
