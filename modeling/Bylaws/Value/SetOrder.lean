import Bylaws.Value.Basic

/-!
# The order of sets

A set does not yield numbers in the order in which they came. Its table has a power of two of
places, more than twice as many as there are members once there are five, and a number has a code
that says where it goes. Main statement: the code of a whole number below the modulus is the number
itself, so that small numbers stand in increasing order. Sets with members of other kinds keep the
order in which they came.
-/

namespace Bylaws.Value

/-- The number of places for some members. -/
def placeCount (members : Nat) : Nat :=
  if members < 5 then 8 else Nat.pow 2 (Nat.log2 (2 * members) + 1)

/-- Codes are remainders by this prime, for which `2 ^ 61` is one. -/
def codeModulus : Nat := Nat.pow 2 61 - 1

/-- A remainder with the sign of its number, as a code of 64 bits; minus one has the code of
minus two. -/
def signedCode (negative : Bool) (remainder : Nat) : Nat :=
  let remainder := remainder % codeModulus
  if negative && remainder != 0 then Nat.pow 2 64 - (if remainder = 1 then 2 else remainder)
  else remainder

/-- The code of a number, which is one for equal numbers of either kind. A unit of the binary
format, `2 ^ -1074`, has the remainder `2 ^ 24`. -/
def code? (v : Value) : Option Nat :=
  match v.number? with
  | some (.inl n) => some (signedCode (n < 0) n.natAbs)
  | some (.inr (.infinite negative)) => some (signedCode negative 314159)
  | some (.inr .notANumber) => none
  | some (.inr x) => some (signedCode x.isNegative (x.units.natAbs * Nat.pow 2 24))
  | none => none

/-- A free place of a table. The ten places from a start are tried together where the table has so
many, and the start alone where not; then the start moves, by what is left of the code. -/
def freePlace (table : Array (Option Value)) : (fuel start rest : Nat) → Nat
  | 0, start, _ => start
  | fuel + 1, start, rest =>
    let tried := List.range' start (if start + 9 < table.size then 10 else 1)
    match tried.find? fun i => (table.getD i none).isNone with
    | some i => i
    | none =>
      let rest := rest / 32
      freePlace table fuel ((start * 5 + 1 + rest) % table.size) rest

/-- The table with one more member. What is left of a code is used up after 13 moves, and the
moves after them reach every place. -/
def placed (table : Array (Option Value)) (v : Value) : Array (Option Value) :=
  let code := v.code?.getD 0
  let i := freePlace table (table.size + 14) (code % table.size) code
  table.setIfInBounds i (some v)

/-- The set of some members in the order in which it yields them. -/
def ofMembers (members : List Value) : Value :=
  if members.all (·.code?.isSome) then
    let empty := Array.replicate (placeCount members.length) none
    set ((members.foldl placed empty).toList.filterMap id)
  else set members

theorem code?_int {n : Nat} (h : n < codeModulus) : (int n).code? = some n := by
  have positive : ¬((n : Int) < 0) := by omega
  simp [code?, number?, signedCode, Nat.mod_eq_of_lt h, positive]

example : placeCount 4 = 8 ∧ placeCount 5 = 16 ∧ placeCount 8 = 32 := by decide +kernel

end Bylaws.Value
