/-!
# Calendar dates

Dates of the Gregorian calendar, extended to all years, and their day numbers: 1970-01-01 is day
zero. `Date.dayNumber` counts the days, `Date.ofDayNumber` finds the date of a day by splitting off
cycles of four hundred, one hundred, four and one years.
-/

namespace GraphIndex.Calendar

/-- A year, a month from 1 to 12 and a day from 1 on. -/
structure Date where
  year : Int
  month : Nat
  day : Nat
  deriving DecidableEq, Repr, Inhabited

def isLeapYear (year : Int) : Bool := year % 4 == 0 && (year % 100 != 0 || year % 400 == 0)

/-- The lengths of the twelve months. -/
def monthLengths (leap : Bool) : List Nat :=
  [31, if leap then 29 else 28, 31, 30, 31, 30, 31, 31, 30, 31, 30, 31]

/-- The length of a month, zero for a month that does not exist. -/
def monthLength (leap : Bool) (month : Nat) : Nat :=
  if month = 0 then 0 else (monthLengths leap).getD (month - 1) 0

namespace Date

/-- Whether the calendar has the date. -/
def isValid (d : Date) : Bool :=
  decide (1 ≤ d.day ∧ d.day ≤ monthLength (isLeapYear d.year) d.month)

/-- The days from the start of year 1 to the start of a year. -/
def daysBeforeYear (year : Int) : Int :=
  let y := year - 1
  365 * y + y / 4 - y / 100 + y / 400

/-- The days of a year before a month. -/
def daysBeforeMonth (leap : Bool) (month : Nat) : Nat :=
  ((monthLengths leap).take (month - 1)).foldr (· + ·) 0

/-- The day number of the first day of 1970, counted from the first day of year 1. -/
def epoch : Int := 719162

/-- How many days of the year precede the date. -/
def dayOfYear (d : Date) : Nat := daysBeforeMonth (isLeapYear d.year) d.month + (d.day - 1)

/-- The number of days from 1970-01-01 to the date. -/
def dayNumber (d : Date) : Int := daysBeforeYear d.year + d.dayOfYear - epoch

/-- The year that contains a day counted from the first day of year 1, and the day of that year. -/
def splitYear (n : Int) : Int × Nat :=
  let cycles := n / 146097
  let r := n % 146097
  -- The last century of a cycle and the last year of four are a day longer, hence the two bounds.
  let centuries := min (r / 36524) 3
  let r := r - 36524 * centuries
  let leaps := r / 1461
  let r := r % 1461
  let years := min (r / 365) 3
  (400 * cycles + 100 * centuries + 4 * leaps + years + 1, (r - 365 * years).toNat)

/-- The month, counted from `month`, and the day of the month of a day of the year. -/
def splitMonth (month day : Nat) : List Nat → Nat × Nat
  | [] => (month, day + 1)
  | length :: rest =>
    if day < length then (month, day + 1) else splitMonth (month + 1) (day - length) rest

/-- The date of a day number. -/
def ofDayNumber (n : Int) : Date :=
  let (year, day) := splitYear (n + epoch)
  let (month, day) := splitMonth 1 day (monthLengths (isLeapYear year))
  ⟨year, month, day⟩

end Date

/-- The day of the week of a day number; Monday is zero. -/
def weekday (n : Int) : Nat := ((n + 3) % 7).toNat

end GraphIndex.Calendar
