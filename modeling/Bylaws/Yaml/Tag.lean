import Bylaws.Yaml.Character

/-!
# Tags of plain scalars

A plain scalar is a text unless it has the form of a value of another kind. The forms are those
of YAML 1.1: truth values in words, integers in four bases and in base sixty, binary numbers
with a point, dates, and a few words and signs.
-/

namespace Bylaws.Yaml

/-- What a node is a value of. -/
inductive Tag where
  | null
  | bool
  | int
  | float
  | timestamp
  | merge
  | default
  | text
  | list
  | dict
  | set
  | orderedMap
  | pairs
  | binary
  | other (name : String)
  deriving DecidableEq, Repr, Inhabited

/-- How every standard tag begins. -/
def standardTag : String := "tag:yaml.org,2002:"

/-- The standard tags that have a kind of value, by name. -/
def standardTags : List (String × Tag) :=
  [("null", .null), ("bool", .bool), ("int", .int), ("float", .float),
   ("timestamp", .timestamp), ("merge", .merge), ("value", .default), ("str", .text),
   ("seq", .list), ("map", .dict), ("set", .set), ("omap", .orderedMap), ("pairs", .pairs),
   ("binary", .binary)]

/-- The tag with a full name. -/
def Tag.ofName (name : String) : Tag :=
  match standardTags.find? fun e => standardTag ++ e.1 == name with
  | some e => e.2
  | none => .other name

namespace Form

def isDigit (c : Char) : Bool := '0' ≤ c && c ≤ '9'

def isDigitOrBar (c : Char) : Bool := isDigit c || c = '_'

/-- A text without the sign at its head. -/
def unsigned : List Char → List Char
  | '-' :: rest => rest
  | '+' :: rest => rest
  | rest => rest

/-- Nothing, or an exponent with a sign. -/
def isExponentOrEmpty : List Char → Bool
  | [] => true
  | c :: s :: d :: rest =>
    (c = 'e' || c = 'E') && (s = '-' || s = '+') && isDigit d && rest.all isDigit
  | _ => false

/-- One or more groups of one or two digits below sixty, each after a colon, up to `stop`. -/
def sixties (stop : List Char → Bool) : (groups : Nat) → List Char → Bool
  | groups, ':' :: a :: b :: rest =>
    ('0' ≤ a && a ≤ '5' && isDigit b && sixties stop (groups + 1) rest) ||
      (isDigit a && sixties stop (groups + 1) (b :: rest))
  | _, [':', a] => isDigit a && stop []
  | groups, rest => groups ≠ 0 && stop rest

/-- A digit followed by digits and bars: its remainder. -/
def afterDigits? (lowest : Char) : List Char → Option (List Char)
  | d :: rest => if lowest ≤ d && d ≤ '9' then some (rest.dropWhile isDigitOrBar) else none
  | [] => none

def isInt (s : List Char) : Bool :=
  match unsigned s with
  | '0' :: 'b' :: c :: rest => (c :: rest).all fun d => d = '0' || d = '1' || d = '_'
  | '0' :: 'x' :: c :: rest =>
    (c :: rest).all fun d =>
      isDigitOrBar d || ('a' ≤ d && d ≤ 'f') || ('A' ≤ d && d ≤ 'F')
  | '0' :: rest => rest.all fun d => ('0' ≤ d && d ≤ '7') || d = '_'
  | s =>
    match afterDigits? '1' s with
    | some [] => true
    | some rest => sixties List.isEmpty 0 rest
    | none => false

def isFloat (s : List Char) : Bool :=
  let u := unsigned s
  let fraction (rest : List Char) : Bool :=
    match rest with
    | '.' :: rest => isExponentOrEmpty (rest.dropWhile isDigitOrBar)
    | _ => false
  let sixtieth (rest : List Char) : Bool :=
    match rest with
    | '.' :: rest => rest.all isDigitOrBar
    | _ => false
  (match afterDigits? '0' u with
    | some rest => fraction rest || sixties sixtieth 0 rest
    | none => false) ||
  (match s with
    | '.' :: d :: rest => isDigit d && isExponentOrEmpty (rest.dropWhile isDigitOrBar)
    | _ => false) ||
  [".inf".toList, ".Inf".toList, ".INF".toList].contains u ||
  [".nan".toList, ".NaN".toList, ".NAN".toList].contains s

/-- The parts of a written date or moment. -/
structure Stamp where
  year : List Char
  month : List Char
  day : List Char
  /-- Hour, minute, second and the digits after the point. -/
  clock : Option (List Char × List Char × List Char × List Char) := none
  /-- The zone: `Z`, or a sign, hours and minutes. -/
  zone : Option (Option (Bool × List Char × List Char)) := none

/-- Up to `most` digits at the head of a text, at least one, and the rest. -/
def someDigits (most : Nat) (s : List Char) : Option (List Char × List Char) :=
  match (s.take most).takeWhile isDigit with
  | [] => none
  | ds => some (ds, s.drop ds.length)

/-- Exactly `count` digits and the rest. -/
def digits (count : Nat) (s : List Char) : Option (List Char × List Char) :=
  match someDigits count s with
  | some (ds, rest) => if ds.length = count then some (ds, rest) else none
  | none => none

/-- The rest of a text after a character. -/
def after (c : Char) : List Char → Option (List Char)
  | d :: rest => if d = c then some rest else none
  | [] => none

/-- The zone at the end of a moment, after blanks. -/
def zone? (s : List Char) : Option (Option (Option (Bool × List Char × List Char))) :=
  match s.dropWhile fun c => c = ' ' || c = '\t' with
  | [] => if s.isEmpty then some none else none
  | ['Z'] => some (some none)
  | c :: rest =>
    if c = '-' || c = '+' then do
      let (hours, rest) ← someDigits 2 rest
      match rest with
      | [] => return some (some (c = '-', hours, []))
      | _ =>
        let (minutes, rest) ← digits 2 (← after ':' rest)
        if rest.isEmpty then return some (some (c = '-', hours, minutes)) else none
    else none

/-- The time of day after a date. -/
def clock? (t : Stamp) (s : List Char) : Option Stamp := do
  let s ← match s with
    | 'T' :: rest => some rest
    | 't' :: rest => some rest
    | c :: rest =>
      if c = ' ' || c = '\t' then some (rest.dropWhile fun c => c = ' ' || c = '\t') else none
    | [] => none
  let (hour, s) ← someDigits 2 s
  let (minute, s) ← digits 2 (← after ':' s)
  let (second, s) ← digits 2 (← after ':' s)
  let (fraction, s) : List Char × List Char :=
    match s with
    | '.' :: rest => (rest.takeWhile isDigit, rest.dropWhile isDigit)
    | rest => ([], rest)
  let zone ← zone? s
  return { t with clock := some (hour, minute, second, fraction), zone }

/-- The parts of a date or moment. -/
def stamp? (s : List Char) : Option Stamp := do
  let (year, s) ← digits 4 s
  let (month, s) ← someDigits 2 (← after '-' s)
  let (day, s) ← someDigits 2 (← after '-' s)
  let t : Stamp := { year, month, day }
  if s.isEmpty then return t else clock? t s

/-- Whether a plain scalar is a date or moment. A date alone has two digits for month and day. -/
def isTimestamp (s : List Char) : Bool :=
  match stamp? s with
  | some t => t.clock.isSome || (t.month.length = 2 && t.day.length = 2)
  | none => false

def words (ws : List String) (s : List Char) : Bool := ws.any fun w => w.toList = s

def isBool (s : List Char) : Bool :=
  words ["yes", "Yes", "YES", "no", "No", "NO", "true", "True", "TRUE", "false", "False", "FALSE",
    "on", "On", "ON", "off", "Off", "OFF"] s

def isNull (s : List Char) : Bool := words ["", "~", "null", "Null", "NULL"] s

end Form

/-- The tag of a plain scalar. A line feed behind the last character does not count. -/
def Tag.ofPlain (text : List Char) : Tag :=
  let s := if text.length ≠ 1 && text.getLast? = some '\n' then text.dropLast else text
  if Form.isBool s then .bool
  else if Form.isFloat s then .float
  else if Form.isInt s then .int
  else if s = ['<', '<'] then .merge
  else if Form.isNull s then .null
  else if Form.isTimestamp s then .timestamp
  else if s = ['='] then .default
  else if s = ['!'] || s = ['&'] || s = ['*'] then .other "tag:yaml.org,2002:yaml"
  else .text

end Bylaws.Yaml
