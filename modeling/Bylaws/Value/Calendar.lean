/-!
# Dates and times

The calendar values that a data file can hold: a day, or a moment on a day with an optional
offset from universal time.
-/

namespace Bylaws

structure Date where
  year : Nat
  month : Nat
  day : Nat
  deriving DecidableEq, Repr, Inhabited

/-- A moment; `offset` is in seconds east of universal time, if it is known. -/
structure Moment where
  date : Date
  hour : Nat
  minute : Nat
  second : Nat
  microsecond : Nat
  offset : Option Int
  deriving DecidableEq, Repr, Inhabited

namespace Calendar

def isLeapYear (y : Nat) : Bool := y % 4 == 0 && (y % 100 != 0 || y % 400 == 0)

/-- The number of days of a month, counted from one. -/
def daysInMonth (y m : Nat) : Nat :=
  if m = 2 then (if isLeapYear y then 29 else 28)
  else if m = 4 || m = 6 || m = 9 || m = 11 then 30
  else 31

/-- The number of days from the first day of the year 1 to a date. -/
def dayNumber (d : Date) : Nat :=
  let y := d.year - 1
  365 * y + y / 4 - y / 100 + y / 400 +
    (List.range (d.month - 1)).foldl (fun days m => days + daysInMonth d.year (m + 1)) 0 + d.day

end Calendar

/-- Microseconds from the start of the year 1, in universal time if the offset is known. -/
def Moment.instant (t : Moment) : Int :=
  let seconds : Int :=
    (((Calendar.dayNumber t.date * 24 + t.hour) * 60 + t.minute) * 60 + t.second : Nat)
  (seconds - t.offset.getD 0) * 1000000 + t.microsecond

/-- Two moments are the same if both offsets are known and they name one instant, or if
neither is known and their clocks agree. -/
def Moment.same (a b : Moment) : Bool :=
  a.offset.isSome == b.offset.isSome && a.instant == b.instant

end Bylaws
