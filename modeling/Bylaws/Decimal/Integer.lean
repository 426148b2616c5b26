import Bylaws.Text.Blank
import Bylaws.Text.Digit

/-!
# Integers in decimal

Writing and reading integers in base ten, and reading them in other bases. Numbers of more than
4300 digits are neither read nor written in decimal. A written integer may have blanks around it,
a sign in front and single underscores between digits, and its digits may be of any script.
-/

namespace Bylaws.Decimal

/-- The greatest number of digits read or written. -/
def digitLimit : Nat := 4300

/-- Whether an integer has too many digits to be written. -/
def isTooLong (n : Int) : Bool := Nat.pow 10 digitLimit ≤ n.natAbs

/-- The decimal text of an integer of any length. Where an integer may have too many digits, it is
written by `Value.intText`, which asks for the limit first. -/
def intText (n : Int) : String :=
  match n with
  | .ofNat m => Nat.repr m
  | .negSucc m => "-" ++ Nat.repr (m + 1)

/-- Why a text is not read as an integer. -/
inductive ReadError where
  | malformed
  | tooLong (digits : Nat)
  deriving DecidableEq, Repr

/-- The blanks that may stand around a number: the separators of files and records do not. -/
def isNumberBlank (c : Char) : Bool := Text.isBlank c && !(0x1C ≤ c.toNat && c.toNat ≤ 0x1F)

/-- Removes the characters of a class from both ends. -/
def strip (p : Char → Bool) (s : List Char) : List Char :=
  ((s.dropWhile p).reverse.dropWhile p).reverse

/-- A written number without the blanks around it. -/
def withoutBlanks (text : List Char) : List Char := strip isNumberBlank text

/-- The digits of a row in which single underscores may stand between two digits. -/
def separatedDigits? : List Char → Option (List Char)
  | [] => none
  | [c] => if Text.isDigit c then some [c] else none
  | c :: '_' :: rest => if Text.isDigit c then (separatedDigits? rest).map (c :: ·) else none
  | c :: rest => if Text.isDigit c then (separatedDigits? rest).map (c :: ·) else none

/-- Whether a character belongs to a row of digits. -/
def isRowChar (c : Char) : Bool := Text.isDigit c || c = '_'

/-- The integer that a text stands for. The digits are counted before what follows them is
looked at. -/
def readInt (text : List Char) : Except ReadError Int :=
  let (negative, row) : Bool × List Char :=
    match withoutBlanks text with
    | '-' :: rest => (true, rest)
    | '+' :: rest => (false, rest)
    | rest => (false, rest)
  match separatedDigits? (row.takeWhile isRowChar) with
  | none => .error .malformed
  | some ds =>
    if digitLimit < ds.length then .error (.tooLong ds.length)
    else if row.all isRowChar then
      .ok (if negative then -(Text.digitsValue ds : Int) else Text.digitsValue ds)
    else .error .malformed

/-- The value of a digit, for which letters may stand from ten on. -/
def digitIn? (base : Nat) (c : Char) : Option Nat :=
  let n :=
    if 'a' ≤ c && c ≤ 'z' then some (c.toNat - 87)
    else if 'A' ≤ c && c ≤ 'Z' then some (c.toNat - 55)
    else Text.digitValue? c
  n.filter (· < base)

/-- The letter that may stand behind a zero in front of the digits of a base. -/
def baseLetter? : (base : Nat) → Option Char
  | 2 => some 'b'
  | 8 => some 'o'
  | 16 => some 'x'
  | _ => none

/-- The integer that a text stands for in another base, without underscores. -/
def readIn? (base : Nat) (text : List Char) : Option Int :=
  let (negative, row) : Bool × List Char :=
    match withoutBlanks text with
    | '-' :: rest => (true, rest)
    | '+' :: rest => (false, rest)
    | rest => (false, rest)
  let digits : List Char :=
    match row with
    | '0' :: c :: rest => if baseLetter? base = some c.toLower then rest else row
    | _ => row
  match digits.mapM (digitIn? base) with
  | none | some [] => none
  | some (d :: ds) =>
    let n := (d :: ds).foldl (fun n d => base * n + d) 0
    some (if negative then -(n : Int) else n)

example : readInt " -1_2３ ".toList = .ok (-123) := rfl

example : readIn? 16 "-0xfF".toList = some (-255) := rfl

example : readInt "1__2".toList = .error .malformed := rfl

end Bylaws.Decimal
