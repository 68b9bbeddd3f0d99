import GraphIndex.Calendar.Timestamp
import GraphIndex.Query.Error
import GraphIndex.Query.Operand
import GraphIndex.Text.DecimalDigit

/-!
# Dates in conditions

A text denotes a point in time as `today` or `yesterday`, as a number of days, weeks, months or
years before today, as a written date or date and time, or as a number of milliseconds. All but
the last look like dates wherever they stand; a bare number is a point in time only where one is
wanted. Months and years are spans of 30 and 365 days.
-/

namespace GraphIndex.Moment

/-- The days of a unit of time. -/
def unitDays : Char → Option Nat
  | 'd' => some 1
  | 'w' => some 7
  | 'm' => some 30
  | 'y' => some 365
  | _ => none

/-- Splits a count and a unit: digits of any script and one letter. The count is not read. -/
def relative? (s : List Char) : Option (List Char × Nat) :=
  match s.dropWhile Text.isDecimalDigit with
  | [u] =>
    match s.takeWhile Text.isDecimalDigit, unitDays u with
    | [], _ => none
    | ds, some days => some (ds, days)
    | _, none => none
  | _ => none

/-- A product, unless it needs more than sixty-four bits. -/
def mul64? (a b : Int) : Option Int := if fitsInt64 (a * b) then some (a * b) else none

/-- How many milliseconds a count of units goes back, unless it needs more than sixty-four bits. -/
def span? (digits : List Char) (days : Nat) : Option Int := do
  let amount ← Numeral.int64? digits
  let total ← mul64? amount.toInt days
  mul64? total Calendar.dayMs

/-- The point in time that lies so far before another. The difference of the two is not looked at:
one that needs more than sixty-four bits stops the program. -/
def before (ms back : Int) : Except QueryError Int64 :=
  if fitsInt64 (ms - back) then .ok (Int64.ofInt (ms - back)) else .error .overflow

/-- The point in time that a text denotes at a given time. A relative date is counted back from the
start of the day. -/
def ofText (now : Int) (text : String) : Except QueryError Int64 :=
  let trimmed := Text.trim text
  let lower := Text.lowercase trimmed
  let today := Calendar.midnight now
  if lower = "today" then .ok (Int64.ofInt today)
  else if lower = "yesterday" then .ok (Int64.ofInt (today - Calendar.dayMs))
  else
    match relative? lower.toList with
    | some (digits, days) =>
      match span? digits days with
      | some back => before today back
      | none => .error (.invalidDate lower)
    | none =>
      match Calendar.readInstant? trimmed.toList with
      | some ms => .ok (Int64.ofInt ms)
      | none =>
        -- A number counts milliseconds. What is refused here is told as it was given, and a count
        -- that is too large in small letters.
        match Numeral.int64? trimmed.toList with
        | some ms => .ok ms
        | none => .error (.invalidDate text)

/-- The integer part of a finite double, brought into the range of sixty-four bits. -/
def wholePart (x : Binary64) : Int64 :=
  Int64.ofInt (max Int64.minValue.toInt (min Int64.maxValue.toInt x.truncate))

/-- The point in time that a value denotes at a given time. -/
def ofOperand (now : Int) : Operand → Except QueryError Int64
  | .integer ms => .ok ms
  | .real x =>
    if x.isFinite then .ok (wholePart x) else .error (.invalidDate (Operand.real x).asText)
  | .text s => ofText now s
  | v => .error (.invalidDate v.asText)

/-- Whether a text begins with four, two and two digits with hyphens between them. -/
def startsLikeDate (s : List Char) : Bool :=
  match s with
  | a :: b :: c :: d :: '-' :: e :: f :: '-' :: g :: h :: _ =>
    [a, b, c, d, e, f, g, h].all Text.isDecimalDigit
  | _ => false

/-- Whether a text is a relative or a written date. -/
def looksLikeDate (text : String) : Bool :=
  let trimmed := Text.trim text
  let lower := Text.lowercase trimmed
  lower == "today" || lower == "yesterday" || (relative? lower.toList).isSome
    || (startsLikeDate lower.toList && (Calendar.readInstant? trimmed.toList).isSome)

end GraphIndex.Moment
