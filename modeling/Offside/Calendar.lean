/-!
# The calendar

How long months are, leap years included. The readers of settings admit dates and times of day as
values, and refuse a date that does not exist; nothing else is done with them.
-/

namespace Offside.Calendar

/-- Whether a year has a leap day. -/
def isLeap (year : Nat) : Bool :=
  year % 4 == 0 && (year % 100 != 0 || year % 400 == 0)

/-- The number of days of a month, the first of which is 1. -/
def daysIn (year month : Nat) : Nat :=
  if month = 2 then if isLeap year then 29 else 28
  else if month = 4 ∨ month = 6 ∨ month = 9 ∨ month = 11 then 30
  else 31

end Offside.Calendar
