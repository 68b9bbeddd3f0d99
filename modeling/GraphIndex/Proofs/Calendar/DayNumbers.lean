import GraphIndex.Calendar.Date
import Mathlib.Algebra.GroupWithZero.Nat

/-!
# Dates and day numbers

Valid dates and day numbers are the same thing: the date of a day number is valid and has that
number (`Date.dayNumber_ofDayNumber`), and a valid date is the date of its number
(`Date.ofDayNumber_dayNumber`).
-/

namespace GraphIndex.Calendar

namespace Date

/-! ### Years -/

/-- The length of a year. -/
def yearLength (year : Int) : Nat := if isLeapYear year then 366 else 365

theorem isLeapYear_iff (year : Int) :
    isLeapYear year = true ↔ year % 4 = 0 ∧ (year % 100 ≠ 0 ∨ year % 400 = 0) := by
  unfold isLeapYear
  simp only [Bool.and_eq_true, Bool.or_eq_true, beq_iff_eq, bne_iff_ne]

theorem daysBeforeYear_eq (year : Int) : daysBeforeYear year
    = 365 * (year - 1) + (year - 1) / 4 - (year - 1) / 100 + (year - 1) / 400 :=
  rfl

theorem daysBeforeYear_succ (year : Int) :
    daysBeforeYear (year + 1) = daysBeforeYear year + yearLength year := by
  have hleap := isLeapYear_iff year
  rw [daysBeforeYear_eq, daysBeforeYear_eq]
  unfold yearLength
  split
  · next h =>
    have h := hleap.mp h
    omega
  · next h =>
    have h := mt hleap.mpr h
    omega

/-- Later years begin later. -/
theorem daysBeforeYear_mono {year year' : Int} (h : year ≤ year') :
    daysBeforeYear year ≤ daysBeforeYear year' := by
  rw [daysBeforeYear_eq, daysBeforeYear_eq]
  omega

/-- The start of a year, by its place in cycles of four hundred, one hundred and four years. -/
theorem daysBeforeYear_of_cycles {q c l y : Int} (hc : 0 ≤ c ∧ c ≤ 3) (hl : 0 ≤ l ∧ l ≤ 24)
    (hy : 0 ≤ y ∧ y ≤ 3) :
    daysBeforeYear (400 * q + 100 * c + 4 * l + y + 1)
      = 146097 * q + 36524 * c + 1461 * l + 365 * y ∧
    (isLeapYear (400 * q + 100 * c + 4 * l + y + 1) = true ↔ y = 3 ∧ (l = 24 → c = 3)) := by
  rw [daysBeforeYear_eq, isLeapYear_iff]
  omega

/-- A day is split off at the start of its year. -/
theorem splitYear_spec (n : Int) :
    daysBeforeYear (splitYear n).1 + (splitYear n).2 = n ∧
      (splitYear n).2 < yearLength (splitYear n).1 := by
  -- A cycle ends with a leap day, so that its hundreds and its single years stop at three.
  obtain ⟨c, hc⟩ : ∃ c, c = min (n % 146097 / 36524) 3 := ⟨_, rfl⟩
  obtain ⟨r, hr⟩ : ∃ r, r = n % 146097 - 36524 * c := ⟨_, rfl⟩
  obtain ⟨y, hy⟩ : ∃ y, y = min (r % 1461 / 365) 3 := ⟨_, rfl⟩
  have hsplit : splitYear n = (400 * (n / 146097) + 100 * c + 4 * (r / 1461) + y + 1,
      (r % 1461 - 365 * y).toNat) := by
    rw [hy, hr, hc]
    rfl
  obtain ⟨hdays, hleap⟩ := daysBeforeYear_of_cycles (q := n / 146097) (c := c) (l := r / 1461)
    (y := y) (by omega) (by omega) (by omega)
  rw [hsplit]
  dsimp only
  rw [hdays]
  unfold yearLength
  constructor
  · omega
  · split
    · omega
    · next hcommon =>
      have hcommon := mt hleap.mpr hcommon
      omega

/-- No day belongs to two years. -/
theorem eq_of_daysBeforeYear_add_eq {year year' : Int} {k k' : Nat} (hk : k < yearLength year)
    (hk' : k' < yearLength year') (h : daysBeforeYear year + k = daysBeforeYear year' + k') :
    year = year' ∧ k = k' := by
  have hnext := daysBeforeYear_succ year
  have hnext' := daysBeforeYear_succ year'
  -- The earlier one of two years ends before the later one starts.
  rcases Int.lt_trichotomy year year' with hlt | rfl | hlt
  · have hle := daysBeforeYear_mono (show year + 1 ≤ year' by omega)
    omega
  · exact ⟨rfl, by omega⟩
  · have hle := daysBeforeYear_mono (show year' + 1 ≤ year by omega)
    omega

theorem splitYear_add {year : Int} {k : Nat} (hk : k < yearLength year) :
    splitYear (daysBeforeYear year + k) = (year, k) := by
  obtain ⟨hdays, hlt⟩ := splitYear_spec (daysBeforeYear year + k)
  obtain ⟨hyear, hday⟩ := eq_of_daysBeforeYear_add_eq hlt hk hdays
  exact Prod.ext hyear hday

/-! ### Months -/

/-- A day that lies in a month is split off at the start of that month. -/
theorem splitMonth_add (month : Nat) {i j : Nat} {lengths : List Nat} (hj : j < lengths.getD i 0) :
    splitMonth month ((lengths.take i).sum + j) lengths = (month + i, j + 1) := by
  -- By the months that come before it; the month counted from is another one at each step.
  induction i generalizing month lengths with
  | zero =>
    cases lengths with
    | nil => exact absurd hj (Nat.not_lt_zero _)
    | cons length rest =>
      rw [List.take_zero, List.sum_nil, Nat.zero_add, splitMonth]
      exact if_pos hj
  | succ i ih =>
    cases lengths with
    | nil => exact absurd hj (Nat.not_lt_zero _)
    | cons length rest =>
      have hskip : length + (rest.take i).sum + j - length = (rest.take i).sum + j := by omega
      rw [List.take_succ_cons, List.sum_cons, splitMonth, if_neg (by omega), hskip, ih _ hj,
        Nat.add_assoc, Nat.add_comm 1]

/-- Every day that some months have lies in one of them. -/
theorem exists_month {day : Nat} {lengths : List Nat} (h : day < lengths.sum) :
    ∃ i j, j < lengths.getD i 0 ∧ day = (lengths.take i).sum + j := by
  induction lengths generalizing day with
  | nil => exact absurd h (Nat.not_lt_zero _)
  | cons length rest ih =>
    by_cases hday : day < length
    · exact ⟨0, day, hday, by rw [List.take_zero, List.sum_nil, Nat.zero_add]⟩
    · rw [List.sum_cons] at h
      have hrest : day - length < rest.sum := by omega
      obtain ⟨i, j, hj, heq⟩ := ih hrest
      refine ⟨i + 1, j, hj, ?_⟩
      rw [List.take_succ_cons, List.sum_cons]
      omega

theorem sum_take_add_lt {i j : Nat} {lengths : List Nat} (hj : j < lengths.getD i 0) :
    (lengths.take i).sum + j < lengths.sum := by
  induction i generalizing lengths with
  | zero =>
    cases lengths with
    | nil => exact absurd hj (Nat.not_lt_zero _)
    | cons length rest =>
      have hlt : j < length := hj
      rw [List.take_zero, List.sum_nil, List.sum_cons]
      omega
  | succ i ih =>
    cases lengths with
    | nil => exact absurd hj (Nat.not_lt_zero _)
    | cons length rest =>
      have hrest : (rest.take i).sum + j < rest.sum := ih hj
      rw [List.take_succ_cons, List.sum_cons, List.sum_cons]
      omega

theorem sum_monthLengths (year : Int) : (monthLengths (isLeapYear year)).sum = yearLength year := by
  unfold yearLength
  cases isLeapYear year <;> rfl

/-! ### Dates -/

theorem isValid_iff {d : Date} : d.isValid = true ↔
    1 ≤ d.day ∧ d.day ≤ monthLength (isLeapYear d.year) d.month :=
  decide_eq_true_iff

/-- A valid date, by its place among the months of its year. -/
theorem exists_place_of_isValid {d : Date} (h : d.isValid = true) :
    ∃ i j, j < (monthLengths (isLeapYear d.year)).getD i 0 ∧ d.month = 1 + i ∧ d.day = j + 1 ∧
      d.dayOfYear = ((monthLengths (isLeapYear d.year)).take i).sum + j := by
  obtain ⟨hpos, hle⟩ := isValid_iff.mp h
  unfold monthLength at hle
  by_cases hzero : d.month = 0
  · rw [if_pos hzero] at hle
    omega
  · rw [if_neg hzero] at hle
    exact ⟨d.month - 1, d.day - 1, by omega, by omega, by omega, rfl⟩

/-- No year has more than twelve months and no month more than thirty-one days. -/
theorem month_le_and_day_le {d : Date} (h : d.isValid = true) : d.month ≤ 12 ∧ d.day ≤ 31 := by
  obtain ⟨i, j, hj, hmonth, hday, -⟩ := exists_place_of_isValid h
  have hlengths : ∀ leap, (monthLengths leap).length = 12 ∧ ∀ l ∈ monthLengths leap, l ≤ 31 := by
    decide
  obtain ⟨hlength, hle⟩ := hlengths (isLeapYear d.year)
  rw [List.getD_eq_getElem?_getD] at hj
  cases hi : (monthLengths (isLeapYear d.year))[i]? with
  | none =>
    rw [hi] at hj
    exact absurd hj (Nat.not_lt_zero j)
  | some l =>
    obtain ⟨hlt, -⟩ := List.getElem?_eq_some_iff.mp hi
    have hl := hle l (List.mem_of_getElem? hi)
    rw [hi, Option.getD_some] at hj
    omega

theorem dayOfYear_lt {d : Date} (h : d.isValid = true) : d.dayOfYear < yearLength d.year := by
  obtain ⟨i, j, hj, -, -, hday⟩ := exists_place_of_isValid h
  rw [hday, ← sum_monthLengths]
  exact sum_take_add_lt hj

theorem ofDayNumber_dayNumber {d : Date} (h : d.isValid = true) : ofDayNumber d.dayNumber = d := by
  obtain ⟨i, j, hj, hmonth, hdayOfMonth, hday⟩ := exists_place_of_isValid h
  have hnumber : d.dayNumber + epoch = daysBeforeYear d.year + d.dayOfYear := by
    unfold dayNumber
    omega
  unfold ofDayNumber
  rw [hnumber, splitYear_add (dayOfYear_lt h), hday]
  dsimp only
  rw [splitMonth_add 1 hj, ← hmonth, ← hdayOfMonth]

/-- What a day number is split into. -/
theorem ofDayNumber_spec (n : Int) :
    ∃ i j, j < (monthLengths (isLeapYear (ofDayNumber n).year)).getD i 0 ∧
      (ofDayNumber n).month = 1 + i ∧ (ofDayNumber n).day = j + 1 ∧
      n + epoch = daysBeforeYear (ofDayNumber n).year
        + (((monthLengths (isLeapYear (ofDayNumber n).year)).take i).sum + j : Nat) := by
  obtain ⟨hdays, hlt⟩ := splitYear_spec (n + epoch)
  have hyear : (ofDayNumber n).year = (splitYear (n + epoch)).1 := rfl
  rw [← sum_monthLengths] at hlt
  obtain ⟨i, j, hj, hday⟩ := exists_month hlt
  have hmonth := splitMonth_add 1 hj
  rw [← hday] at hmonth
  rw [hyear]
  refine ⟨i, j, hj, congrArg Prod.fst hmonth, congrArg Prod.snd hmonth, ?_⟩
  rw [← hday, hdays]

theorem isValid_ofDayNumber (n : Int) : (ofDayNumber n).isValid = true := by
  obtain ⟨i, j, hj, hmonth, hday, -⟩ := ofDayNumber_spec n
  rw [isValid_iff, hmonth, hday]
  unfold monthLength
  rw [if_neg (by omega), Nat.add_sub_cancel_left]
  omega

theorem dayNumber_ofDayNumber (n : Int) : (ofDayNumber n).dayNumber = n := by
  obtain ⟨i, j, hj, hmonth, hday, hnumber⟩ := ofDayNumber_spec n
  have hdayOfYear : (ofDayNumber n).dayOfYear
      = ((monthLengths (isLeapYear (ofDayNumber n).year)).take i).sum + j := by
    unfold dayOfYear daysBeforeMonth
    rw [hmonth, hday, Nat.add_sub_cancel_left, Nat.add_sub_cancel]
    rfl
  unfold dayNumber
  rw [hdayOfYear]
  omega

/-- The dates before a year are those whose days come before its first day. -/
theorem year_ofDayNumber_lt_iff (n year : Int) :
    (ofDayNumber n).year < year ↔ n + epoch < daysBeforeYear year := by
  obtain ⟨hdays, hlt⟩ := splitYear_spec (n + epoch)
  have hyear : (ofDayNumber n).year = (splitYear (n + epoch)).1 := rfl
  have hnext := daysBeforeYear_succ (splitYear (n + epoch)).1
  rw [hyear]
  constructor
  · intro hbefore
    have hmono := daysBeforeYear_mono (Int.add_one_le_iff.mpr hbefore)
    omega
  · intro hbefore
    refine Int.not_le.mp fun hge => ?_
    have hmono := daysBeforeYear_mono hge
    omega

end Date

end GraphIndex.Calendar
