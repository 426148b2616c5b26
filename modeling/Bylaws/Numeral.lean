import Bylaws.Fault

/-!
# Numerals

Positive numbers in letters and in roman numerals, and the five styles in which a rank is
written. Letters count in base twenty-six without a zero: after `z` comes `aa`. Roman numerals
subtract as usual and repeat `m` for every thousand. Numbers below one are written in decimal
in every style, and decimal has a limit of digits.
-/

namespace Bylaws

namespace Numeral

/-- The letter that stands for `d + 1`. -/
def letter (d : Nat) : Char := Char.ofNat (97 + d)

/-- The letters of a number, in front of letters found before. -/
def lettersBefore (n : Nat) (found : List Char) : List Char :=
  if n = 0 then found
  else lettersBefore ((n - 1) / 26) (letter ((n - 1) % 26) :: found)
termination_by n
decreasing_by omega

/-- The word of letters for a positive number. -/
def letters (n : Nat) : List Char := lettersBefore n []

/-- The values of the roman symbols, subtractive pairs included, from the greatest. -/
def romanSymbols : List (Nat × List Char) :=
  [(1000, ['m']), (900, ['c', 'm']), (500, ['d']), (400, ['c', 'd']),
   (100, ['c']), (90, ['x', 'c']), (50, ['l']), (40, ['x', 'l']),
   (10, ['x']), (9, ['i', 'x']), (5, ['v']), (4, ['i', 'v']), (1, ['i'])]

/-- A number written with some symbols, each taken as often as it fits. -/
def romanWith : List (Nat × List Char) → Nat → List Char
  | [], _ => []
  | (value, symbol) :: rest, n =>
    (List.replicate (n / value) symbol).flatten ++ romanWith rest (n % value)

/-- The roman numeral of a positive number. -/
def roman (n : Nat) : List Char := romanWith romanSymbols n

/-- Letters for an integer, which must be positive. -/
def alphabetic (n : Int) : Except Fault String :=
  if n < 1 then .error (.alphabetStart n) else .ok (String.ofList (letters n.toNat))

/-- The roman numeral of an integer, which must be positive. -/
def romanNumeral (n : Int) : Except Fault String :=
  if n < 1 then .error (.romanStart n) else .ok (String.ofList (roman n.toNat))

/-- Capital letters in place of the small ones. -/
def capitals (s : List Char) : List Char := s.map Char.toUpper

end Numeral

/-- The ways to write a rank. -/
inductive Style where
  | decimal
  | lowerAlpha
  | upperAlpha
  | lowerRoman
  | upperRoman
  deriving DecidableEq, Repr, Inhabited

namespace Style

def all : List Style := [decimal, lowerAlpha, upperAlpha, lowerRoman, upperRoman]

def name : Style → String
  | decimal => "decimal"
  | lowerAlpha => "lower_alpha"
  | upperAlpha => "upper_alpha"
  | lowerRoman => "lower_roman"
  | upperRoman => "upper_roman"

/-- The style with a name. -/
def ofName? (s : String) : Option Style := all.find? fun t => t.name == s

/-- The text of a rank in a style. A rank counts paragraphs, so it has few digits; `text` is the
rule for any integer. -/
def write (style : Style) (n : Int) : String :=
  if n < 1 then Decimal.intText n
  else
    match style with
    | decimal => Decimal.intText n
    | lowerAlpha => String.ofList (Numeral.letters n.toNat)
    | upperAlpha => String.ofList (Numeral.capitals (Numeral.letters n.toNat))
    | lowerRoman => String.ofList (Numeral.roman n.toNat)
    | upperRoman => String.ofList (Numeral.capitals (Numeral.roman n.toNat))

/-- Whether a number is written in decimal in a style. -/
def isDecimal (style : Style) (n : Int) : Bool := style = decimal || n < 1

/-- The text of an integer in a style, or the fault that it has too many digits in decimal. -/
def text (style : Style) (n : Int) : Except Fault String :=
  if style.isDecimal n then Value.intText n else .ok (style.write n)

end Style

/-- The text of a number in the style with a name. A name of no style is noticed only where a
style is needed: numbers below one are decimal in any case. -/
def Numeral.inStyle (n : Int) (name : String) : Except Fault String :=
  match Style.ofName? name with
  | some style => style.text n
  | none => if n < 1 then Value.intText n else .error (.numeralStyle name)

example : Numeral.roman 1994 = "mcmxciv".toList := by decide

end Bylaws
