import GraphIndex.Proofs.Calendar.DayTexts
import GraphIndex.Proofs.Plan.GroupKeys
import Mathlib.Data.List.DropRight

/-!
# Longer periods read off the keys of shorter ones

The key of a day tells the week and the month in which the day falls, the key of a month the
quarter, and the keys of quarters and weeks the year (`Coarsening.key_label`). All but the week are
parts of the text. For the week the text is read as a date; the date that the store writes for a day
still has the number of that day, even where the calendar has no such date
(`dayNumber_storeDate`). So it is with the keys of nodes, those without a date among them
(`Coarsening.key_periodKey`).
-/

namespace GraphIndex

open Calendar

/-- A step from a period to a longer one into which it falls as a whole. -/
inductive Coarsening where
  | dayToWeek
  | dayToMonth
  | monthToQuarter
  | quarterToYear
  | weekToYear
  deriving DecidableEq, Repr

namespace Coarsening

/-- The shorter period. -/
def fine : Coarsening → Period
  | dayToWeek | dayToMonth => .day
  | monthToQuarter => .month
  | quarterToYear => .quarter
  | weekToYear => .week

/-- The longer period. -/
def coarse : Coarsening → Period
  | dayToWeek => .week
  | dayToMonth => .month
  | monthToQuarter => .quarter
  | quarterToYear | weekToYear => .year

end Coarsening

/-! ### Parts of keys -/

/-- A key without so many characters at its end. -/
def shortened (n : Nat) (key : String) : String := .ofList (key.toList.rdrop n)

/-- The number in the last two characters of a key. -/
def lastNumber (key : String) : Nat := Numeral.value (key.toList.drop (key.toList.length - 2))

/-- The year that a key denotes. -/
def yearNumber (key : String) : Int :=
  match key.toList with
  | '-' :: digits => -(Numeral.value digits)
  | digits => Numeral.value digits

/-- The date that the key of a day denotes. -/
def dateOfKey (key : String) : Date :=
  ⟨yearNumber (shortened 6 key), lastNumber (shortened 3 key), lastNumber key⟩

/-- The key of the longer period, read off the key of the shorter one. -/
def Coarsening.key (c : Coarsening) (key : String) : String :=
  if key = noneKey then noneKey
  else
    match c with
    | dayToWeek => Period.week.label (dateOfKey key).dayNumber
    | dayToMonth | quarterToYear => shortened 3 key
    | monthToQuarter => shortened 3 key ++ "-Q" ++ toString ((lastNumber key + 2) / 3)
    | weekToYear => shortened 4 key

theorem shortened_append {n : Nat} (key : String) {suffix : List Char} (h : suffix.length = n) :
    shortened n (key ++ .ofList suffix) = key := by
  unfold shortened
  rw [String.toList_append, String.toList_ofList, ← h, List.rdrop_append_length,
    String.ofList_toList]

theorem lastNumber_append (key : String) (c : Char) {n : Nat} (hn : n < 100) :
    lastNumber (key ++ .ofList (c :: paddedDigits 2 n)) = n := by
  have hlength : (paddedDigits 2 n).length = 2 := length_paddedDigits (by decide) hn
  have hsplit : (key ++ .ofList (c :: paddedDigits 2 n)).toList
      = (key.toList ++ [c]) ++ paddedDigits 2 n := by
    rw [String.toList_append, String.toList_ofList, List.append_assoc, List.singleton_append]
  unfold lastNumber
  rw [hsplit, List.drop_left' (by simp [hlength]), value_paddedDigits]

/-! ### Keys of periods -/

namespace Period

theorem label_year (n : Int) : year.label n = .ofList (yearChars (storeDate n).year) := by
  unfold label dateText
  simp [DatePart.chars]

theorem label_month (n : Int) :
    month.label n = year.label n ++ .ofList ('-' :: paddedDigits 2 (storeDate n).month) := by
  rw [label_year, ← String.ofList_append]
  unfold label dateText
  simp [DatePart.chars]

theorem label_day_of_month (n : Int) :
    day.label n = month.label n ++ .ofList ('-' :: paddedDigits 2 (storeDate n).day) := by
  rw [label_month, label_year, ← String.ofList_append, ← String.ofList_append]
  unfold label dateText
  simp [DatePart.chars]

theorem label_week (n : Int) :
    week.label n = year.label n ++ .ofList ('-' :: 'W' :: paddedDigits 2 (weekOfYear n)) := by
  rw [label_year, ← String.ofList_append]
  unfold label dateText
  simp [DatePart.chars]

theorem label_quarter (n : Int) :
    quarter.label n = year.label n ++ "-Q" ++ toString (((storeDate n).month + 2) / 3) :=
  rfl

theorem yearNumber_label (n : Int) : yearNumber (year.label n) = (storeDate n).year := by
  unfold yearNumber
  rw [label_year, String.toList_ofList]
  unfold yearChars
  split_ifs with hneg
  · show -(Numeral.value (paddedDigits 3 _) : Int) = _
    rw [value_paddedDigits]
    omega
  · obtain ⟨c, ds, hc, hdigits⟩ := exists_cons_paddedDigits 4 (storeDate n).year.natAbs
    have hvalue := value_paddedDigits 4 (storeDate n).year.natAbs
    rw [hdigits] at hvalue ⊢
    split
    · next heq =>
      obtain ⟨rfl, -⟩ := List.cons.inj heq
      exact absurd hc (by decide)
    · rw [hvalue]
      omega

end Period

/-! ### Dates of the store -/

theorem day_storeDate_le (n : Int) : (storeDate n).day ≤ 31 := by
  unfold storeDate
  dsimp only
  split_ifs
  · exact Nat.le_of_lt_succ (show 29 < 32 by decide)
  · exact (Date.month_le_and_day_le (Date.isValid_ofDayNumber n)).2

theorem weekOfYear_lt (n : Int) : weekOfYear n < 100 := by
  have hday := Date.dayOfYear_lt (Date.isValid_ofDayNumber n)
  have hlength : Date.yearLength (Date.ofDayNumber n).year ≤ 366 := by
    unfold Date.yearLength
    split_ifs <;> omega
  unfold weekOfYear
  omega

/-- The date that is written for a day has its number, even where there is no such date: in a common
year the day after February 28 is March 1. -/
theorem dayNumber_storeDate (n : Int) : (storeDate n).dayNumber = n := by
  have hnumber := Date.dayNumber_ofDayNumber n
  unfold storeDate
  dsimp only
  split_ifs with hshifted
  · obtain ⟨hmonth, hday, hcentury, -⟩ := Date.isShifted_iff.mp hshifted
    -- A shifted date is the first of March of a common year, counted as a February 29.
    have hcommon : isLeapYear (Date.ofDayNumber n).year = false := by
      rw [← Bool.not_eq_true, Date.isLeapYear_iff]
      omega
    have hnext : ∀ {year}, isLeapYear year = false →
        (⟨year, 2, 29⟩ : Date).dayNumber = (⟨year, 3, 1⟩ : Date).dayNumber := by
      intro year hyear
      unfold Date.dayNumber Date.dayOfYear
      dsimp only
      rw [hyear]
      rfl
    rw [hnext hcommon, ← hmonth, ← hday]
    exact hnumber
  · exact hnumber

theorem dateOfKey_label (n : Int) : dateOfKey (Period.day.label n) = storeDate n := by
  have hmonth : (storeDate n).month < 100 := by
    have := month_storeDate_le n
    omega
  have hday : (storeDate n).day < 100 := by
    have := day_storeDate_le n
    omega
  have hlength : ∀ {c : Char} {m : Nat}, m < 100 → (c :: paddedDigits 2 m).length = 3 :=
    fun hm => congrArg Nat.succ (length_paddedDigits (by decide) hm)
  have hyear : shortened 6 (Period.day.label n) = Period.year.label n := by
    rw [Period.label_day_of_month, Period.label_month, String.append_assoc, ← String.ofList_append]
    exact shortened_append _ (by rw [List.length_append, hlength hmonth, hlength hday])
  unfold dateOfKey
  rw [hyear, Period.yearNumber_label, Period.label_day_of_month, lastNumber_append _ _ hday,
    shortened_append _ (hlength hday), Period.label_month, lastNumber_append _ _ hmonth]

/-! ### Longer periods -/

/-- Every key of a period begins with the year. -/
theorem Period.exists_label_eq_append (p : Period) (n : Int) :
    ∃ rest, p.label n = year.label n ++ rest := by
  cases p with
  | day =>
    rw [label_day_of_month, label_month, String.append_assoc]
    exact ⟨_, rfl⟩
  | week => exact ⟨_, label_week n⟩
  | month => exact ⟨_, label_month n⟩
  | quarter => exact ⟨_, (label_quarter n).trans String.append_assoc⟩
  | year => exact ⟨"", String.append_empty.symm⟩

theorem Period.label_ne_noneKey (p : Period) (n : Int) : p.label n ≠ noneKey := by
  -- A label begins with the year, that is with a digit or a minus sign.
  have hyear : ∃ c cs, c ≠ '(' ∧ yearChars (storeDate n).year = c :: cs := by
    unfold yearChars
    split_ifs
    · exact ⟨'-', _, by decide, rfl⟩
    · obtain ⟨c, ds, hc, hdigits⟩ := exists_cons_paddedDigits 4 (storeDate n).year.natAbs
      refine ⟨c, ds, ?_, hdigits⟩
      rintro rfl
      exact absurd hc (by decide)
  obtain ⟨c, cs, hc, hchars⟩ := hyear
  obtain ⟨rest, hlabel⟩ := p.exists_label_eq_append n
  intro heq
  have hlist := congrArg String.toList (hlabel.symm.trans heq)
  rw [label_year, String.toList_append, String.toList_ofList, hchars] at hlist
  exact hc (List.cons.inj hlist).1

namespace Coarsening

@[simp]
theorem key_noneKey (c : Coarsening) : c.key noneKey = noneKey := if_pos rfl

/-- **The key of the longer period** can be read off the key of the shorter one. -/
theorem key_label (c : Coarsening) (n : Int) : c.key (c.fine.label n) = c.coarse.label n := by
  have hlength : ∀ {c : Char} {m : Nat}, m < 100 → (c :: paddedDigits 2 m).length = 3 :=
    fun hm => congrArg Nat.succ (length_paddedDigits (by decide) hm)
  unfold key
  rw [if_neg (Period.label_ne_noneKey c.fine n)]
  cases c with
  | dayToWeek =>
    show Period.week.label (dateOfKey (Period.day.label n)).dayNumber = Period.week.label n
    rw [dateOfKey_label, dayNumber_storeDate]
  | dayToMonth =>
    show shortened 3 (Period.day.label n) = Period.month.label n
    have := day_storeDate_le n
    rw [Period.label_day_of_month]
    exact shortened_append _ (hlength (by omega))
  | monthToQuarter =>
    show shortened 3 (Period.month.label n) ++ "-Q"
      ++ toString ((lastNumber (Period.month.label n) + 2) / 3) = Period.quarter.label n
    have := month_storeDate_le n
    rw [Period.label_month, lastNumber_append _ _ (by omega),
      shortened_append _ (hlength (by omega)), Period.label_quarter]
  | quarterToYear =>
    show shortened 3 (Period.quarter.label n) = Period.year.label n
    -- The number of a quarter has one digit.
    have hle := month_storeDate_le n
    have hdigit : toString (((storeDate n).month + 2) / 3)
        = .ofList [Nat.digitChar (((storeDate n).month + 2) / 3)] :=
      congrArg String.ofList (Nat.toDigits_of_lt_base (by omega))
    have hsuffix : Period.quarter.label n = Period.year.label n
        ++ .ofList ['-', 'Q', Nat.digitChar (((storeDate n).month + 2) / 3)] := by
      rw [Period.label_quarter, hdigit, String.append_assoc]
      exact congrArg (_ ++ ·) String.ofList_append.symm
    rw [hsuffix]
    exact shortened_append _ rfl
  | weekToYear =>
    show shortened 4 (Period.week.label n) = Period.year.label n
    rw [Period.label_week]
    exact shortened_append _ (congrArg Nat.succ (hlength (weekOfYear_lt n)))

example : dayToWeek.key "2024-12-31" = "2024-W53" := by decide +kernel

end Coarsening

/-! ### Keys of nodes -/

/-- The key of a value of a date column along a period. -/
def Datum.periodKey (p : Period) (d : Datum) : String := (d.dayOfMs?.map p.label).getD noneKey

/-- Values without a date stay without one, and the others fall into the longer period. -/
theorem Coarsening.key_periodKey (c : Coarsening) (d : Datum) :
    c.key (d.periodKey c.fine) = d.periodKey c.coarse := by
  unfold Datum.periodKey
  cases d.dayOfMs? with
  | none => exact c.key_noneKey
  | some n => exact c.key_label n

theorem Datum.periodKey_eq_noneKey_iff {p : Period} {d : Datum} :
    d.periodKey p = noneKey ↔ d.dayOfMs? = none := by
  unfold Datum.periodKey
  cases d.dayOfMs? with
  | none => simp
  | some n => simp [p.label_ne_noneKey n]

/-- Along a period every node has one key. -/
theorem Dimension.keyLists_period (store : Store) (r : NodeRow) (p : Period) (c : DateColumn) :
    keyLists store r [.period p c] = [[(r.cell c.column).periodKey p]] :=
  rfl

end GraphIndex
