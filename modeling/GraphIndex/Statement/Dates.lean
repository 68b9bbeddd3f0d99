import GraphIndex.Calendar.Date
import GraphIndex.Statement.Basic

/-!
# Dates in statements

A number of seconds since the start of 1970 is written as a date, as far as the store knows dates:
from the start of Julian day zero to the end of the year 9999. Beyond that there is none.

The calendar is the Gregorian one with one exception: in the year 300 and in every fourth century
before it the day after February 28 is counted as February 29, and March 1 is passed over.
-/

namespace GraphIndex

open Calendar

/-- The milliseconds from the start of Julian day zero to the start of 1970. -/
def julianMs : Int := 210866760000000

/-- The milliseconds from the start of Julian day zero to the end of the year 9999. -/
def lastJulianMs : Int := 464269060800000

/-- The milliseconds of a day. -/
def msPerDay : Int := 86400000

/-- The day number of a number of seconds, rounded to the nearest millisecond. -/
def dayOfSeconds? (seconds : Binary64) : Option Int :=
  let ms := seconds * .ofInt 1000 + .ofInt julianMs
  let rounded := (ms + .ofRatio false 1 2).truncate
  -- The last half millisecond is rounded out of the range.
  let inRange := (Binary64.compareInt? 0 ms).any (· != .gt)
    && (Binary64.compareInt? lastJulianMs ms) == some .gt && decide (rounded < lastJulianMs)
  if inRange then some ((rounded - julianMs) / msPerDay) else none

/-- Whether a date is counted as February 29 although it is March 1. -/
def isShifted (d : Date) : Bool :=
  d.month == 3 && d.day == 1 && d.year % 400 == 300 && decide (d.year ≤ 300)

/-- The date of a day number in the calendar of the store. -/
def storeDate (day : Int) : Date :=
  let d := Date.ofDayNumber day
  if isShifted d then ⟨d.year, 2, 29⟩ else d

/-- The week of the year of a day; days before the first Monday are in week zero. -/
def weekOfYear (day : Int) : Nat := ((Date.ofDayNumber day).dayOfYear + 7 - weekday day) / 7

/-- The digits of a number, with zeros in front up to a width. -/
def paddedDigits (width n : Nat) : List Char :=
  let ds := Nat.toDigits 10 n
  List.replicate (width - ds.length) '0' ++ ds

/-- A year with at least four characters, the sign included. -/
def yearChars (year : Int) : List Char :=
  if year < 0 then '-' :: paddedDigits 3 year.natAbs else paddedDigits 4 year.natAbs

/-- A part of the date of a day. -/
def DatePart.chars (day : Int) : DatePart → List Char
  | year => yearChars (storeDate day).year
  | month => paddedDigits 2 (storeDate day).month
  | DatePart.day => paddedDigits 2 (storeDate day).day
  | week => paddedDigits 2 (weekOfYear day)
  | char c => [c]

/-- The text of a day. -/
def dateText (format : List DatePart) (day : Int) : String :=
  .ofList (format.flatMap (DatePart.chars day))

end GraphIndex
