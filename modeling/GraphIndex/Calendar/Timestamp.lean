import GraphIndex.Calendar.Date
import GraphIndex.Number.Numeral
import GraphIndex.Text.Blank

/-!
# Points in time and their texts

A point in time is a number of milliseconds since the start of 1970. `readInstant?` reads the
written forms: a date, a date with a time of day, and a date with a time of day and an offset from
universal time. A leap second is read as the second after the one before it.
-/

namespace GraphIndex.Calendar

/-- The milliseconds of a day. -/
def dayMs : Int := 24 * 3600 * 1000

/-- The start of the day that contains a point in time. -/
def midnight (ms : Int) : Int := ms - ms % dayMs

/-- Reads a natural number of at least `least` and at most `most` digits. -/
def readDigits (least most : Nat) (s : List Char) : Option (Nat × List Char) :=
  let ds := (s.take most).takeWhile Char.isDigit
  if ds.length < least then none else some (Numeral.value ds, s.drop ds.length)

/-- Reads one fixed character. -/
def readChar (c : Char) : List Char → Option (List Char)
  | d :: rest => if d = c then some rest else none
  | [] => none

/-- The years for which dates exist. -/
def yearInRange (year : Int) : Bool := decide (-262143 ≤ year ∧ year ≤ 262142)

/-- A valid date as a day number. -/
def dayNumber? (year : Int) (month day : Nat) : Option Int :=
  let d : Date := ⟨year, month, day⟩
  if yearInRange year && d.isValid then some d.dayNumber else none

/-- A valid time of day in milliseconds; second 60 is a leap second. -/
def timeOfDay? (hour minute second ms : Nat) : Option Int :=
  if hour ≤ 23 ∧ minute ≤ 59 ∧ second ≤ 60 then
    some (hour * 3600000 + minute * 60000 + second * 1000 + ms)
  else none

/-- Reads the digits after the point of a second: nine of them count, to the millisecond. -/
def readFraction (s : List Char) : Option (Nat × List Char) :=
  let ds := s.takeWhile Char.isDigit
  if ds.isEmpty then none
  else some (Numeral.value ((ds ++ ['0', '0']).take 3), s.drop ds.length)

/-- Reads a fraction of a second if a point introduces one. -/
def readOptionalFraction : List Char → Option (Nat × List Char)
  | '.' :: s => readFraction s
  | s => some (0, s)

/-! ### The form with an offset -/

/-- Reads an offset from universal time, in milliseconds: `Z`, or hours and minutes with a sign. -/
def readOffset : List Char → Option (Int × List Char)
  | [] => none
  | c :: s =>
    if c = 'z' ∨ c = 'Z' then some (0, s)
    else if c = '+' ∨ c = '-' ∨ c.toNat = 0x2212 then do
      let (hours, s) ← readDigits 2 2 s
      let s ← readChar ':' s
      let (minutes, s) ← readDigits 2 2 s
      if hours ≤ 23 ∧ minutes ≤ 59 then
        let ms : Int := hours * 3600000 + minutes * 60000
        some (if c = '+' then ms else -ms, s)
      else none
    else none

/-- A date, a time of day to the second or finer, and an offset; every field has its full width. -/
def readWithOffset? (s : List Char) : Option Int := do
  let (year, s) ← readDigits 4 4 s
  let s ← readChar '-' s
  let (month, s) ← readDigits 2 2 s
  let s ← readChar '-' s
  let (day, s) ← readDigits 2 2 s
  let s ← readChar 'T' s <|> readChar 't' s <|> readChar ' ' s
  let (hour, s) ← readDigits 2 2 s
  let s ← readChar ':' s
  let (minute, s) ← readDigits 2 2 s
  let s ← readChar ':' s
  let (second, s) ← readDigits 2 2 s
  let (ms, s) ← readOptionalFraction s
  let (offset, s) ← readOffset s
  if !s.isEmpty then none
  let n ← dayNumber? year month day
  let t ← timeOfDay? hour minute second ms
  some (n * dayMs + t - offset)

/-! ### The forms without an offset -/

def skipBlanks (s : List Char) : List Char := s.dropWhile Text.isBlank

/-- Reads a number of one or two digits after any blanks. -/
def readShort (s : List Char) : Option (Nat × List Char) := readDigits 1 2 (skipBlanks s)

/-- Reads a year after any blanks: up to four digits, or with a sign any number of them. -/
def readYear (s : List Char) : Option (Int × List Char) :=
  match skipBlanks s with
  | '-' :: s => (readDigits 1 s.length s).map fun (n, rest) => (-(n : Int), rest)
  | '+' :: s => (readDigits 1 s.length s).map fun (n, rest) => ((n : Int), rest)
  | s => (readDigits 1 4 s).map fun (n, rest) => ((n : Int), rest)

/-- Reads a date; its fields may be short and may follow blanks. -/
def readDay (s : List Char) : Option (Int × List Char) := do
  let (year, s) ← readYear s
  let s ← readChar '-' s
  let (month, s) ← readShort s
  let s ← readChar '-' s
  let (day, s) ← readShort s
  let n ← dayNumber? year month day
  some (n, s)

/-- Reads a time of day to the minute, as hour and minute. -/
def readMinutes (s : List Char) : Option ((Nat × Nat) × List Char) := do
  let (hour, s) ← readShort s
  let s ← readChar ':' s
  let (minute, s) ← readShort s
  some ((hour, minute), s)

/-- A date, a `T` and a time of day to the minute, the second or finer. -/
def readLocal? (s : List Char) : Option Int := do
  let (n, s) ← readDay s
  let s ← readChar 'T' s
  let ((hour, minute), s) ← readMinutes s
  match s with
  | [] =>
    let t ← timeOfDay? hour minute 0 0
    some (n * dayMs + t)
  | _ =>
    let s ← readChar ':' s
    let (second, s) ← readShort s
    let (ms, s) ← readOptionalFraction s
    if !s.isEmpty then none
    let t ← timeOfDay? hour minute second ms
    some (n * dayMs + t)

/-- A date and a time of day to the second, with any blanks between them. -/
def readSpaced? (s : List Char) : Option Int := do
  let (n, s) ← readDay s
  let ((hour, minute), s) ← readMinutes s
  let s ← readChar ':' s
  let (second, s) ← readShort s
  if !s.isEmpty then none
  let t ← timeOfDay? hour minute second 0
  some (n * dayMs + t)

/-- A date alone stands for the start of its day. -/
def readDate? (s : List Char) : Option Int := do
  let (n, s) ← readDay s
  if !s.isEmpty then none
  some (n * dayMs)

/-- The point in time that a text denotes, in milliseconds since the start of 1970. -/
def readInstant? (s : List Char) : Option Int :=
  readWithOffset? s <|> readLocal? s <|> readSpaced? s <|> readDate? s

end GraphIndex.Calendar
