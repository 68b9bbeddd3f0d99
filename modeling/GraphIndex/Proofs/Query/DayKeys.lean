import GraphIndex.Proofs.Calendar.DayTexts
import GraphIndex.Proofs.Statement.Days

/-!
# Days under which points in time are counted

Nodes are counted by the day of their creation. The statement cuts the milliseconds off toward zero
before it looks for the day, so that the last milliseconds of a day before 1970 are counted under
the day after it; and March 1 of the year 300 is counted under a date that there is not
(`Calendar.IsStray`). All other points in time are counted under the day on which they fall, as far
as the text of the day has a year of four digits (`Datum.dayKey_eq_iff_of_not_isStray`).
-/

namespace GraphIndex

open Calendar

/-! ### Usual dates -/

/-- A date of the years 1 to 9998: its text and that of the day after it have four digits for the
year. -/
structure Calendar.Date.IsUsual (d : Date) : Prop where
  valid : d.isValid = true
  year : 1 ≤ d.year ∧ d.year ≤ 9998

namespace Calendar.Date.IsUsual

variable {d : Date}

theorem fitsYear (h : d.IsUsual) : 0 ≤ d.year ∧ d.year < 10000 := by
  have := h.year
  omega

/-- The days of usual dates are those from the start of year 1 to the end of year 9998. -/
theorem iff_dayNumber (hvalid : d.isValid = true) :
    d.IsUsual ↔ -719162 ≤ d.dayNumber ∧ d.dayNumber < 2932532 := by
  have hfirst := year_ofDayNumber_lt_iff d.dayNumber 1
  have hlast := year_ofDayNumber_lt_iff d.dayNumber 9999
  have hbefore : daysBeforeYear 1 = 0 ∧ daysBeforeYear 9999 = 3651694 := by decide
  rw [ofDayNumber_dayNumber hvalid, hbefore.1] at hfirst
  rw [ofDayNumber_dayNumber hvalid, hbefore.2] at hlast
  unfold epoch at hfirst hlast
  constructor
  · rintro ⟨-, hyear⟩
    omega
  · intro hnumber
    exact ⟨hvalid, by omega⟩

theorem dayNumber (h : d.IsUsual) : -719162 ≤ d.dayNumber ∧ d.dayNumber < 2932532 :=
  (iff_dayNumber h.valid).mp h

end Calendar.Date.IsUsual

theorem Calendar.Date.isUsual_ofDayNumber {n : Int} (h : -719162 ≤ n ∧ n < 2932532) :
    (ofDayNumber n).IsUsual := by
  refine (IsUsual.iff_dayNumber (isValid_ofDayNumber n)).mpr ?_
  rwa [dayNumber_ofDayNumber]

/-! ### The day of a point in time -/

/-- The day under which a point in time is counted. -/
def countedDay (ms : Int) : Int := ms.tdiv 1000 / 86400

/-- The seconds of a point in time before 1970 are rounded up. -/
theorem tdiv_thousand (ms : Int) :
    ms.tdiv 1000 = ms / 1000 + if ms < 0 ∧ ms % 1000 ≠ 0 then 1 else 0 := by
  rw [Int.tdiv_eq_ediv, show Int.sign 1000 = 1 from rfl]
  split <;> split <;> omega

/-- Milliseconds are cut off toward zero, days toward the past. -/
theorem countedDay_eq (ms : Int) : countedDay ms
    = ms / dayMs + if ms < 0 ∧ dayMs - 1000 < ms % dayMs then 1 else 0 := by
  unfold countedDay dayMs
  rw [tdiv_thousand]
  split <;> split <;> omega

namespace Datum

/-- A point in time is counted under a day as far as the store knows dates. -/
theorem dayOfMs?_integer (t : Int64) : (integer t).dayOfMs?
    = if -210866760000 ≤ t.toInt.tdiv 1000 ∧ t.toInt.tdiv 1000 < 253402300800 then
        some (countedDay t.toInt)
      else none := by
  have hlow := Int64.le_toInt t
  have hhigh := Int64.toInt_le t
  have hmin : Int64.minValue.toInt = -2 ^ 63 := rfl
  have hmax : Int64.maxValue.toInt = 2 ^ 63 - 1 := rfl
  have htdiv := tdiv_thousand t.toInt
  have hseconds : -2 ^ 63 ≤ t.toInt.tdiv 1000 ∧ t.toInt.tdiv 1000 < 2 ^ 63 := by
    split at htdiv <;> omega
  have hbound : (t.toInt.tdiv 1000).natAbs ≤ 2 ^ 63 := by omega
  have hfits : fitsInt64 (t.toInt.tdiv 1000) = true := decide_eq_true (by omega)
  -- The quotient of two integers is one again, and only then read as a double.
  have hdivide : (integer t).divide (.integer 1000)
      = .integer (Int64.ofInt (t.toInt.tdiv 1000)) := by
    show (if (1000 : Int64) = 0 then null
      else if fitsInt64 (t.toInt.tdiv (1000 : Int64).toInt) then _ else _) = _
    rw [if_neg (by decide), show (1000 : Int64).toInt = 1000 from rfl, if_pos hfits]
  have hreal : (Datum.integer (Int64.ofInt (t.toInt.tdiv 1000))).toReal?
      = some (.ofInt (t.toInt.tdiv 1000)) := by
    show some (Binary64.ofInt (Int64.ofInt (t.toInt.tdiv 1000)).toInt) = _
    rw [Int64.toInt_ofInt_of_le (by omega) (by omega)]
  unfold dayOfMs?
  rw [hdivide, hreal]
  exact dayOfSeconds?_ofInt hbound

/-- The key of a value of the creation column. -/
def dayKey (d : Datum) : String := (d.dayOfMs?.map Period.day.label).getD noneKey

variable {d : Date}

/-- The key of nodes without a day is not the text of a date. -/
theorem noneKey_ne_toText (h : d.Fits) : noneKey ≠ d.toText := by
  intro heq
  obtain ⟨c, cs, hc, hchars⟩ := h.exists_cons_chars
  have hlist : noneKey.toList = c :: cs := by
    rw [heq]
    exact String.toList_ofList.trans hchars
  obtain ⟨rfl, -⟩ := List.cons.inj (hlist.symm.trans (show noneKey.toList = '(' :: _ from rfl))
  exact absurd hc (by decide)

theorem dayKey_null_ne (h : d.IsUsual) : dayKey .null ≠ d.toText :=
  noneKey_ne_toText (Date.fits_of_isValid h.valid h.fitsYear)

/-- A point in time is counted under a date if that is its day, unless the date is written as
another one. -/
theorem dayKey_eq_iff (h : d.IsUsual) (t : Int64) :
    dayKey (.integer t) = d.toText ↔ countedDay t.toInt = d.dayNumber ∧ isShifted d = false := by
  have hnumber := h.dayNumber
  unfold dayKey
  rw [dayOfMs?_integer]
  split
  · next hrange =>
    have hyear : (Date.ofDayNumber (countedDay t.toInt)).year < 10000 := by
      have hbefore : Date.daysBeforeYear 10000 = 3652059 := by decide
      rw [Date.year_ofDayNumber_lt_iff, hbefore]
      unfold Date.epoch countedDay
      omega
    exact Period.label_day_eq_iff h.valid h.fitsYear hyear
  · next hrange =>
    -- No usual date lies outside of the range of dates.
    have hne := noneKey_ne_toText (Date.fits_of_isValid h.valid h.fitsYear)
    have hcounted : countedDay t.toInt ≠ d.dayNumber := by
      unfold countedDay
      omega
    exact iff_of_false hne fun hcontra => hcounted hcontra.1

end Datum

/-! ### Points in time that stray -/

/-- The day that is counted as February 29 of the year 300. -/
def Calendar.Date.shifted : Date := ⟨300, 3, 1⟩

/-- A point in time that is counted under another date than that of its day, one of them usual: it
lies in the last second of a day before 1970, its first millisecond apart, and on the last day of
the year 0 at the earliest; or on March 1 of the year 300. -/
def Calendar.IsStray (ms : Int) : Prop :=
  (-719163 * dayMs ≤ ms ∧ ms < 0 ∧ dayMs - 1000 < ms % dayMs)
    ∨ ms / dayMs = Date.shifted.dayNumber

theorem Calendar.Date.IsUsual.isShifted_iff {d : Date} (h : d.IsUsual) :
    isShifted d = true ↔ d = Date.shifted := by
  obtain ⟨hfirst, hlast⟩ := h.year
  rw [Date.isShifted_iff]
  constructor
  · rintro ⟨hmonth, hday, hcentury, hle⟩
    have hyear : d.year = 300 := by omega
    calc d = ⟨d.year, d.month, d.day⟩ := rfl
      _ = Date.shifted := by rw [hyear, hmonth, hday]; rfl
  · rintro rfl
    decide

namespace Datum

variable {t : Int64} {d : Date}

/-- **A point in time that does not stray is counted under the day on which it falls.** -/
theorem dayKey_eq_iff_of_not_isStray (ht : ¬ IsStray t.toInt) (hd : d.IsUsual) :
    dayKey (.integer t) = d.toText ↔ t.toInt / dayMs = d.dayNumber := by
  obtain ⟨hfirst, hlast⟩ := hd.dayNumber
  obtain ⟨hlate, hshifted⟩ := not_or.mp ht
  rw [dayKey_eq_iff hd, countedDay_eq]
  unfold dayMs at hlate hshifted ⊢
  have hplain : t.toInt / (24 * 3600 * 1000) = d.dayNumber → isShifted d = false := by
    intro hfalls
    rw [← Bool.not_eq_true, hd.isShifted_iff]
    rintro rfl
    exact hshifted hfalls
  split
  · -- What is counted a day late and does not stray lies before the last day of the year 0: no
    -- usual date is its day or the day after it.
    constructor
    · rintro ⟨hcounted, -⟩
      omega
    · intro hfalls
      omega
  · rw [add_zero]
    exact ⟨And.left, fun hfalls => ⟨hfalls, hplain hfalls⟩⟩

/-- For one that strays there is a date at which the two differ. -/
theorem exists_dayKey_of_isStray (ht : IsStray t.toInt) : ∃ d : Date, d.IsUsual ∧
    ¬ (dayKey (.integer t) = d.toText ↔ t.toInt / dayMs = d.dayNumber) := by
  have husual : Date.shifted.IsUsual := ⟨by decide, by decide⟩
  rcases ht with ⟨hearly, hneg, hlate⟩ | hshifted
  · have hcounted : countedDay t.toInt = t.toInt / dayMs + 1 := by
      rw [countedDay_eq, if_pos ⟨hneg, hlate⟩]
    unfold dayMs at hearly hcounted ⊢
    by_cases hzero : t.toInt / (24 * 3600 * 1000) = -719163
    · -- The last day of the year 0 is not asked about, the day after it is.
      have hfirst : (⟨1, 1, 1⟩ : Date).IsUsual := ⟨by decide, by decide⟩
      have hnumber : (⟨1, 1, 1⟩ : Date).dayNumber = -719162 := by decide
      refine ⟨_, hfirst, fun hiff => ?_⟩
      have hkey := (dayKey_eq_iff hfirst t).mpr ⟨by rw [hnumber]; omega, by decide⟩
      have hfalls := hiff.mp hkey
      omega
    · have hday : -719162 ≤ t.toInt / (24 * 3600 * 1000) ∧
          t.toInt / (24 * 3600 * 1000) < 2932532 := by omega
      refine ⟨_, Date.isUsual_ofDayNumber hday, fun hiff => ?_⟩
      rw [Date.dayNumber_ofDayNumber, dayKey_eq_iff (Date.isUsual_ofDayNumber hday),
        Date.dayNumber_ofDayNumber] at hiff
      have hkey := (hiff.mpr rfl).1
      omega
  · refine ⟨_, husual, fun hiff => ?_⟩
    have hplain := ((dayKey_eq_iff husual t).mp (hiff.mpr hshifted)).2
    exact absurd hplain (by decide)

end Datum

end GraphIndex
