import Bylaws.Decimal.Binary64
import Bylaws.Text.Digit

/-!
# Reading decimal fractions

A number in decimal notation: a sign, digits with a point among them, and an exponent, of which
sign, point and exponent may be missing.
-/

namespace Bylaws.Decimal

/-- The sign at the head of a text. -/
def takeSign : List Char → Bool × List Char
  | '-' :: rest => (true, rest)
  | '+' :: rest => (false, rest)
  | rest => (false, rest)

/-- The exponent at the end of a number. -/
def exponent? : List Char → Option Int
  | [] => some 0
  | c :: rest =>
    if c = 'e' || c = 'E' then
      match takeSign rest with
      | (negative, d :: ds) =>
        if (d :: ds).all Text.isDigit then
          let n : Int := Text.digitsValue (d :: ds)
          some (if negative then -n else n)
        else none
      | _ => none
    else none

/-- The number that a text without blanks stands for. -/
def readFloat? (text : List Char) : Option Binary64 :=
  let (negative, s) := takeSign text
  let word := s.map Char.toLower
  if word = "inf".toList || word = "infinity".toList then some (.infinite negative)
  else if word = "nan".toList then some .notANumber
  else
    let whole := s.takeWhile Text.isDigit
    let (fraction, rest) : List Char × List Char :=
      match s.dropWhile Text.isDigit with
      | '.' :: rest => (rest.takeWhile Text.isDigit, rest.dropWhile Text.isDigit)
      | rest => ([], rest)
    if (whole ++ fraction).isEmpty then none
    else
      (exponent? rest).map fun e =>
        .ofDecimal negative (Text.digitsValue (whole ++ fraction)) (e - fraction.length)

end Bylaws.Decimal
