/-!
# 64-bit binary numbers

A finite number is held as two natural numbers, so that all arithmetic on it is exact and
rounding is one division. Reading a decimal rounds the exact value to nearest, ties to even.
-/

namespace Bylaws

/-- A number of the 64-bit binary format. The size of a finite one is
`significand * 2 ^ scale / 2 ^ 1074`, with the significand below `2 ^ 53`, and not below
`2 ^ 52` unless the scale is zero. -/
inductive Binary64 where
  | finite (negative : Bool) (significand scale : Nat)
  | infinite (negative : Bool)
  | notANumber
  deriving DecidableEq, Repr, Inhabited

namespace Binary64

/-- The quotient `a / d` rounded to the nearest natural number, ties to even. -/
def nearest (a d : Nat) : Nat :=
  let q := a / d
  let r := a % d
  if d < 2 * r || (2 * r == d && q % 2 == 1) then q + 1 else q

/-- The number nearest to `num / den`, with a sign. -/
def ofRatio (negative : Bool) (num den : Nat) : Binary64 :=
  let scaled := num * Nat.pow 2 1074
  let scale := (scaled / den).log2 - 52
  let m := nearest scaled (den * Nat.pow 2 scale)
  let (m, scale) := if m = Nat.pow 2 53 then (Nat.pow 2 52, scale + 1) else (m, scale)
  if 2045 < scale then .infinite negative else .finite negative m scale

/-- The number nearest to `digits * 10 ^ exponent`. Exponents far outside the range of the
format are answered without computing the power. -/
def ofDecimal (negative : Bool) (digits : Nat) (exponent : Int) : Binary64 :=
  if digits = 0 then .finite negative 0 0
  else if 400 ≤ exponent then .infinite negative
  else if exponent < -400 - (digits.log2 : Int) then .finite negative 0 0
  else if 0 ≤ exponent then ofRatio negative (digits * Nat.pow 10 exponent.toNat) 1
  else ofRatio negative digits (Nat.pow 10 (-exponent).toNat)

/-- The number nearest to an integer. -/
def ofInt (n : Int) : Binary64 := ofRatio (n < 0) n.natAbs 1

def isZero : Binary64 → Bool
  | .finite _ 0 _ => true
  | _ => false

/-- Whether the sign of a number is set. -/
def isNegative : Binary64 → Bool
  | .finite s _ _ => s
  | .infinite s => s
  | .notANumber => false

def neg : Binary64 → Binary64
  | .finite s m p => .finite (!s) m p
  | .infinite s => .infinite (!s)
  | .notANumber => .notANumber

/-- The value of a finite number in units of `2 ^ -1074`. -/
def units : Binary64 → Int
  | .finite true m p => -((m * Nat.pow 2 p : Nat) : Int)
  | .finite false m p => ((m * Nat.pow 2 p : Nat) : Int)
  | _ => 0

/-- The sum of two numbers, rounded once; opposite infinities have none. -/
def add : Binary64 → Binary64 → Binary64
  | .notANumber, _ => .notANumber
  | _, .notANumber => .notANumber
  | .infinite s, .infinite t => if s = t then .infinite s else .notANumber
  | .infinite s, _ => .infinite s
  | _, .infinite t => .infinite t
  | x@(.finite s _ _), y@(.finite t _ _) =>
    let total := x.units + y.units
    if total = 0 then .finite (s && t) 0 0
    else ofRatio (total < 0) total.natAbs (Nat.pow 2 1074)

/-- The product of two numbers, rounded once. -/
def mul : Binary64 → Binary64 → Binary64
  | .notANumber, _ => .notANumber
  | _, .notANumber => .notANumber
  | .infinite s, y => if y.isZero then .notANumber else .infinite (s != y.isNegative)
  | x, .infinite t => if x.isZero then .notANumber else .infinite (x.isNegative != t)
  | x@(.finite s _ _), y@(.finite t _ _) =>
    ofRatio (s != t) (x.units.natAbs * y.units.natAbs) (Nat.pow 2 2148)

/-- Whether a number is the given integer. -/
def equalsInt (x : Binary64) (n : Int) : Bool :=
  match x with
  | .finite .. => x.units == n * Int.pow 2 1074
  | _ => false

/-- Equality as numbers: zeros of either sign are equal, and a value that is no number
equals nothing. -/
def equals (x y : Binary64) : Bool :=
  match x, y with
  | .notANumber, _ => false
  | .finite .., .finite .. => x.units == y.units
  | x, y => x == y

/-- The integer part, toward zero, of a finite number. -/
def truncate? (x : Binary64) : Option Int :=
  match x with
  | .finite s m p =>
    let n : Nat := m * Nat.pow 2 p / Nat.pow 2 1074
    some (if s then -(n : Int) else n)
  | _ => none

end Binary64

end Bylaws
