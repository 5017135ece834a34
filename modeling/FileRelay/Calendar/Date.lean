/-!
# Calendar/Date — days of the Gregorian calendar, counted from 1 January 1970

A **date** is a year, a month and a day of the calendar as it runs in both directions without end.
`toDays` counts the days from 1 January 1970 and `ofDays` finds the date of a count; both reckon in
cycles of 400 years, of 146097 days each, from 1 March of a year divisible by 400, so that the leap
day is the last of its year.
-/

namespace FileRelay.Calendar

/-- A day of the calendar. -/
structure Date where
  year : Int
  month : Nat
  day : Nat
  deriving DecidableEq, Repr

/-- A year with a leap day. -/
def isLeapYear (year : Int) : Bool := year % 4 == 0 && (year % 100 != 0 || year % 400 == 0)

/-- The number of days of a month. -/
def daysInMonth (year : Int) (month : Nat) : Nat :=
  if month == 2 then (if isLeapYear year then 29 else 28)
  else if month == 4 || month == 6 || month == 9 || month == 11 then 30
  else 31

namespace Date

/-- A date that the calendar has. -/
def Valid (d : Date) : Prop :=
  1 ≤ d.month ∧ d.month ≤ 12 ∧ 1 ≤ d.day ∧ d.day ≤ daysInMonth d.year d.month

instance (d : Date) : Decidable d.Valid := by unfold Valid; infer_instance

/-- The days of 400 years. -/
def daysPerCycle : Nat := 146097

/-- The day of a year that begins in March, from zero. -/
def dayOfYear (month day : Nat) : Nat := (153 * ((month + 9) % 12) + 2) / 5 + (day - 1)

/-- The day of a cycle, from zero, of a day of one of its years. -/
def dayOfCycle (yearOfCycle dayOfYear : Nat) : Nat :=
  yearOfCycle * 365 + yearOfCycle / 4 - yearOfCycle / 100 + dayOfYear

/-- **The days from 1 January 1970 to a date.** -/
def toDays (d : Date) : Int :=
  let year := if d.month ≤ 2 then d.year - 1 else d.year
  let inCycle := dayOfCycle (year % 400).toNat (dayOfYear d.month d.day)
  year / 400 * daysPerCycle + inCycle - 719468

/-- The year of a cycle that a day of it belongs to. -/
def yearOfCycle (day : Nat) : Nat := (day - day / 1460 + day / 36524 - day / 146096) / 365

/-- **The date so many days after 1 January 1970.** -/
def ofDays (days : Int) : Date :=
  let shifted := days + 719468
  let day := (shifted % daysPerCycle).toNat
  let yoc := yearOfCycle day
  let doy := day - (365 * yoc + yoc / 4 - yoc / 100)
  let shiftedMonth := (5 * doy + 2) / 153
  let month := if shiftedMonth < 10 then shiftedMonth + 3 else shiftedMonth - 9
  let year := shifted / daysPerCycle * 400 + yoc
  { year := if month ≤ 2 then year + 1 else year
    month
    day := doy - (153 * shiftedMonth + 2) / 5 + 1 }

end Date

end FileRelay.Calendar
