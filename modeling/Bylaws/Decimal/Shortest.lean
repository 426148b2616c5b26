import Bylaws.Decimal.Binary64

/-!
# Shortest decimal text of a binary number

The digits of a number are the fewest that read back as it; of several such decimals it is the
nearest, and of two equally near the one that ends in an even digit. A `Layout` says how these
digits are written: where positional notation ends and how an exponent looks.
-/

namespace Bylaws.Decimal

/-- The decimal number `digits * 10 ^ exponent`. -/
structure Scientific where
  digits : Nat
  exponent : Int
  deriving DecidableEq, Repr

/-- A positive number between the ends of the reals that round to it, all over `2 ^ 1076`. -/
structure Interval where
  low : Nat
  value : Nat
  high : Nat
  /-- The ends round to the number too. -/
  closed : Bool

/-- The reals that round to `significand * 2 ^ scale / 2 ^ 1074`. The gap below a power of two
is half the gap above it. -/
def Interval.of (significand scale : Nat) : Interval :=
  let unit := Nat.pow 2 scale
  let below := if significand = Nat.pow 2 52 && 0 < scale then unit else 2 * unit
  { low := 4 * significand * unit - below
    value := 4 * significand * unit
    high := 4 * significand * unit + 2 * unit
    closed := significand % 2 == 0 }

/-- The number `n / 2 ^ 1076` on the grid of multiples of `10 ^ step`: the numerator and the
denominator of its quotient by the step. -/
def onGrid (n : Nat) (step : Int) : Nat × Nat :=
  if 0 ≤ step then (n, Nat.pow 2 1076 * Nat.pow 10 step.toNat)
  else (n * Nat.pow 10 (-step).toNat, Nat.pow 2 1076)

/-- The largest `e` with `10 ^ e ≤ n / 2 ^ 1076`, from an estimate by the binary logarithm. -/
def magnitude (n : Nat) : Int :=
  let guess := Int.fdiv (((n.log2 : Int) - 1076) * 30103) 100000
  let atLeast (e : Int) : Bool := let (a, d) := onGrid n e; d ≤ a
  if atLeast (guess + 1) then guess + 1 else if atLeast guess then guess else guess - 1

/-- The point of the grid of multiples of `10 ^ step` that lies in the interval and is nearest
to its value, if one of the value's two neighbours lies in it. -/
def Interval.pointOn? (i : Interval) (step : Int) : Option Nat :=
  let (a, d) := onGrid i.value step
  let (lo, _) := onGrid i.low step
  let (hi, _) := onGrid i.high step
  let inside (c : Nat) : Bool :=
    if i.closed then lo ≤ c * d && c * d ≤ hi else lo < c * d && c * d < hi
  let c := a / d
  let r := a % d
  match 0 < c && inside c, inside (c + 1) with
  | true, true => if 2 * r < d || (2 * r == d && c % 2 == 0) then some c else some (c + 1)
  | true, false => some c
  | false, true => some (c + 1)
  | false, false => none

/-- The first hit on the grids with `count`, `count + 1`, ... digits. -/
def Interval.search (i : Interval) (top : Int) : (fuel count : Nat) → Scientific
  | 0, _ => ⟨0, 0⟩
  | fuel + 1, count =>
    match i.pointOn? (top - count + 1) with
    | some c => ⟨c, top - count + 1⟩
    | none => i.search top fuel (count + 1)

/-- The shortest decimal that reads back as `significand * 2 ^ scale / 2 ^ 1074`. Seventeen
digits are always enough. -/
def shortest (significand scale : Nat) : Scientific :=
  if significand = 0 then ⟨0, 0⟩
  else
    let i := Interval.of significand scale
    i.search (magnitude i.value) 18 1

/-- How the digits of a number are written. -/
structure Layout where
  /-- The decimal exponents of the first digit that are written without an exponent mark. -/
  leastPositional : Int
  mostPositional : Int
  /-- The least number of digits of a written exponent. -/
  exponentWidth : Nat
  infinity : String
  notANumber : String

/-- `count` zeros. -/
def zeros (count : Nat) : List Char := List.replicate count '0'

/-- The digits of a written exponent, with its sign. -/
def exponentText (width : Nat) (e : Int) : List Char :=
  let ds := (Nat.repr e.natAbs).toList
  (if e < 0 then '-' else '+') :: zeros (width - ds.length) ++ ds

/-- The digits `ds`, the first of which stands for tens to the `top`, in positional notation. -/
def positional (ds : List Char) (top : Int) : List Char :=
  if top < 0 then '0' :: '.' :: zeros (-top - 1).toNat ++ ds
  else
    let whole := top.toNat + 1
    if ds.length ≤ whole then ds ++ zeros (whole - ds.length) ++ ['.', '0']
    else ds.take whole ++ '.' :: ds.drop whole

/-- The digits without the zeros at their end, and how many zeros there were. -/
def withoutTrailingZeros (ds : List Char) : List Char :=
  match (ds.reverse.dropWhile (· == '0')).reverse with
  | [] => ['0']
  | kept => kept

/-- The text of a number. -/
def Layout.write (l : Layout) : Binary64 → List Char
  | .notANumber => l.notANumber.toList
  | .infinite s => (if s then ['-'] else []) ++ l.infinity.toList
  | .finite s m p =>
    let x := shortest m p
    let all := (Nat.repr x.digits).toList
    let ds := withoutTrailingZeros all
    let top := (all.length : Int) - 1 + x.exponent
    (if s then ['-'] else []) ++
      if l.leastPositional ≤ top && top ≤ l.mostPositional then positional ds top
      else
        (match ds with
          | [d] => [d]
          | d :: rest => d :: '.' :: rest
          | [] => []) ++ 'e' :: exponentText l.exponentWidth top

end Bylaws.Decimal
