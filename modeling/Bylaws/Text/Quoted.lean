import Bylaws.Text.Printable
import Bylaws.Text.Surrogate

/-!
# Quoted text

How a message quotes a text: between single quotes, or between double quotes where the text
holds a single quote and no double one. The quote in use, the backslash and all unprintable
characters are escaped.
-/

namespace Bylaws.Text

/-- The digit of a hexadecimal number, in lower case. -/
def hexDigit (d : Nat) : Char :=
  if d < 10 then Char.ofNat (48 + d) else Char.ofNat (87 + d)

/-- The last `width` hexadecimal digits of `n`. -/
def hex : (width n : Nat) → List Char
  | 0, _ => []
  | width + 1, n => hex width (n / 16) ++ [hexDigit (n % 16)]

/-- The escape for a character that cannot be shown: two, four or eight digits. -/
def codeEscape (c : Char) : List Char :=
  let n := code c
  if n < 0x100 then '\\' :: 'x' :: hex 2 n
  else if n < 0x10000 then '\\' :: 'u' :: hex 4 n
  else '\\' :: 'U' :: hex 8 n

/-- One character inside quotes. -/
def quotedChar (quote c : Char) : List Char :=
  if c = quote || c = '\\' then ['\\', c]
  else if c = '\n' then ['\\', 'n']
  else if c = '\r' then ['\\', 'r']
  else if c = '\t' then ['\\', 't']
  else if isPrintable c then [c]
  else codeEscape c

/-- The quote that needs the fewest escapes; the single one if both do. -/
def quoteFor (s : List Char) : Char :=
  if s.contains '\'' && !s.contains '"' then '"' else '\''

/-- A text between quotes. -/
def quoted (s : List Char) : List Char :=
  quoteFor s :: s.flatMap (quotedChar (quoteFor s)) ++ [quoteFor s]

example : quoted "it's".toList = "\"it's\"".toList := by decide +kernel

example : quoted "a\\\n\u00a0".toList = "'a\\\\\\n\\xa0'".toList := by decide +kernel

end Bylaws.Text
