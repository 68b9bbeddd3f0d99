import GraphIndex.Calendar.Timestamp
import GraphIndex.Proofs.Calendar.DayNumbers
import GraphIndex.Proofs.Number.Numerals
import Mathlib.Data.Finset.Insert
import Mathlib.Data.List.TakeWhile
import Mathlib.Order.Bounds.Defs
import Mathlib.Tactic.Ring

/-!
# The range of points in time

Dates exist for the years -262143 to 262142, so a clock shows no point in time outside of them
(`IsClockTime`), and a written date denotes none that is more than a day away from them, whatever
its offset (`readInstant?_bounds`). Sixty-four bits hold far more. The start of the day is the last
multiple of a day that is not in the future (`isGreatest_midnight`).
-/

namespace GraphIndex

namespace Calendar

open Numeral

variable {s rest : List Char} {n : Nat}

theorem readFraction_lt (h : readFraction s = some (n, rest)) : n < 1000 := by
  unfold readFraction at h
  dsimp only at h
  split at h
  · exact absurd h (by simp)
  · obtain ⟨rfl, -⟩ := Prod.mk.inj (Option.some.inj h)
    have hdigits : ∀ c ∈ (s.takeWhile Char.isDigit ++ ['0', '0']).take 3, c.isDigit = true := by
      intro c hc
      rcases List.mem_append.mp (List.mem_of_mem_take hc) with hc | hc
      · exact List.mem_takeWhile_imp hc
      · rcases List.mem_pair.mp hc with rfl | rfl <;> rfl
    refine lt_of_lt_of_le (value_lt hdigits) ?_
    exact Nat.pow_le_pow_right (by decide) (List.length_take_le _ _)

theorem readOptionalFraction_lt (h : readOptionalFraction s = some (n, rest)) : n < 1000 := by
  unfold readOptionalFraction at h
  split at h
  · exact readFraction_lt h
  · obtain ⟨rfl, -⟩ := Prod.mk.inj (Option.some.inj h)
    decide

/-! ### Written dates -/

/-- The first day for which there are dates, and the day after the last one. -/
def firstDay : Int := (⟨-262143, 1, 1⟩ : Date).dayNumber

def endDay : Int := (⟨262143, 1, 1⟩ : Date).dayNumber

theorem dayNumber?_bounds {year : Int} {month day : Nat} {n : Int}
    (h : dayNumber? year month day = some n) : firstDay ≤ n ∧ n < endDay := by
  unfold dayNumber? at h
  dsimp only at h
  split at h
  · next hdate =>
    obtain rfl := Option.some.inj h
    rw [Bool.and_eq_true, yearInRange, decide_eq_true_iff] at hdate
    obtain ⟨⟨hfirst, hlast⟩, hvalid⟩ := hdate
    -- The day lies within its year, and the years are bounded.
    have hyear := Date.dayOfYear_lt hvalid
    have hnext := Date.daysBeforeYear_succ year
    have hafterFirst := Date.daysBeforeYear_mono hfirst
    have hbeforeEnd := Date.daysBeforeYear_mono (show year + 1 ≤ 262143 by omega)
    dsimp only at hyear
    unfold firstDay endDay Date.dayNumber
    dsimp only
    have hfirstDay : (⟨-262143, 1, 1⟩ : Date).dayOfYear = 0 := by decide
    have hendDay : (⟨262143, 1, 1⟩ : Date).dayOfYear = 0 := by decide
    rw [hfirstDay, hendDay]
    omega
  · exact absurd h (by simp)

/-- With a leap second a time of day may reach a second into the next day. -/
theorem timeOfDay?_bounds {hour minute second ms : Nat} {t : Int}
    (h : timeOfDay? hour minute second ms = some t) (hms : ms < 1000) :
    0 ≤ t ∧ t < dayMs + 1000 := by
  unfold timeOfDay? at h
  split at h
  · next hfields =>
    obtain rfl := Option.some.inj h
    unfold dayMs
    omega
  · exact absurd h (by simp)

theorem readOffset_bounds {offset : Int} (h : readOffset s = some (offset, rest)) :
    -dayMs < offset ∧ offset < dayMs := by
  unfold readOffset at h
  split at h
  · exact absurd h (by simp)
  · split at h
    · obtain ⟨rfl, -⟩ := Prod.mk.inj (Option.some.inj h)
      decide
    · split at h
      · simp only [Option.bind_eq_bind, Option.bind_eq_some_iff, Prod.exists] at h
        obtain ⟨hours, r, -, r', -, minutes, r'', -, h⟩ := h
        split at h
        · obtain ⟨hoffset, -⟩ := Prod.mk.inj (Option.some.inj h)
          unfold dayMs
          split at hoffset <;> omega
        · exact absurd h (by simp)
      · exact absurd h (by simp)

/-- A point in time that may be written as a date: it is in the range of dates, but for an offset
and a leap second. -/
def IsWritable (ms : Int) : Prop :=
  (firstDay - 1) * dayMs < ms ∧ ms < (endDay + 1) * dayMs + 1000

theorem isWritable_add {day t : Int} (hday : firstDay ≤ day ∧ day < endDay)
    (ht : -dayMs < t ∧ t < 2 * dayMs + 1000) : IsWritable (day * dayMs + t) := by
  unfold IsWritable dayMs at *
  omega

theorem readDay_bounds {day : Int} (h : readDay s = some (day, rest)) :
    firstDay ≤ day ∧ day < endDay := by
  unfold readDay at h
  simp only [Option.bind_eq_bind, Option.bind_eq_some_iff, Prod.exists] at h
  obtain ⟨year, r₁, -, r₂, -, month, r₃, -, r₄, -, dayOfMonth, r₅, -, n, hn, h⟩ := h
  obtain ⟨rfl, -⟩ := Prod.mk.inj (Option.some.inj h)
  exact dayNumber?_bounds hn

theorem isWritable_of_readWithOffset? {ms : Int} (h : readWithOffset? s = some ms) :
    IsWritable ms := by
  unfold readWithOffset? at h
  -- Date, time of day and offset are what counts; the fields before them may be any numbers.
  obtain ⟨⟨year, s⟩, -, h⟩ := Option.bind_eq_some_iff.mp h
  obtain ⟨s, -, h⟩ := Option.bind_eq_some_iff.mp h
  obtain ⟨⟨month, s⟩, -, h⟩ := Option.bind_eq_some_iff.mp h
  obtain ⟨s, -, h⟩ := Option.bind_eq_some_iff.mp h
  obtain ⟨⟨day, s⟩, -, h⟩ := Option.bind_eq_some_iff.mp h
  obtain ⟨s, -, h⟩ := Option.bind_eq_some_iff.mp h
  obtain ⟨⟨hour, s⟩, -, h⟩ := Option.bind_eq_some_iff.mp h
  obtain ⟨s, -, h⟩ := Option.bind_eq_some_iff.mp h
  obtain ⟨⟨minute, s⟩, -, h⟩ := Option.bind_eq_some_iff.mp h
  obtain ⟨s, -, h⟩ := Option.bind_eq_some_iff.mp h
  obtain ⟨⟨second, s⟩, -, h⟩ := Option.bind_eq_some_iff.mp h
  obtain ⟨⟨fraction, s⟩, hfraction, h⟩ := Option.bind_eq_some_iff.mp h
  obtain ⟨⟨offset, s⟩, hoffset, h⟩ := Option.bind_eq_some_iff.mp h
  dsimp only at h
  split at h
  · exact absurd h (by simp)
  · obtain ⟨n, hn, h⟩ := Option.bind_eq_some_iff.mp h
    obtain ⟨t, ht, h⟩ := Option.bind_eq_some_iff.mp h
    obtain rfl := Option.some.inj h
    have htime := timeOfDay?_bounds ht (readOptionalFraction_lt hfraction)
    have hoffset := readOffset_bounds hoffset
    rw [Int.add_sub_assoc]
    exact isWritable_add (dayNumber?_bounds hn) (by omega)

theorem isWritable_of_readLocal? {ms : Int} (h : readLocal? s = some ms) : IsWritable ms := by
  unfold readLocal? at h
  obtain ⟨⟨day, s⟩, hday, h⟩ := Option.bind_eq_some_iff.mp h
  obtain ⟨s, -, h⟩ := Option.bind_eq_some_iff.mp h
  obtain ⟨⟨⟨hour, minute⟩, s⟩, -, h⟩ := Option.bind_eq_some_iff.mp h
  have hwritable : ∀ {second fraction : Nat} {t : Int}, fraction < 1000 →
      timeOfDay? hour minute second fraction = some t → IsWritable (day * dayMs + t) := by
    intro second fraction t hfraction ht
    have htime := timeOfDay?_bounds ht hfraction
    exact isWritable_add (readDay_bounds hday) (by unfold dayMs at *; omega)
  dsimp only at h
  split at h
  · obtain ⟨t, ht, h⟩ := Option.bind_eq_some_iff.mp h
    obtain rfl := Option.some.inj h
    exact hwritable (by decide) ht
  · obtain ⟨s, -, h⟩ := Option.bind_eq_some_iff.mp h
    obtain ⟨⟨second, s⟩, -, h⟩ := Option.bind_eq_some_iff.mp h
    obtain ⟨⟨fraction, s⟩, hfraction, h⟩ := Option.bind_eq_some_iff.mp h
    dsimp only at h
    split at h
    · exact absurd h (by simp)
    · obtain ⟨t, ht, h⟩ := Option.bind_eq_some_iff.mp h
      obtain rfl := Option.some.inj h
      exact hwritable (readOptionalFraction_lt hfraction) ht

theorem isWritable_of_readSpaced? {ms : Int} (h : readSpaced? s = some ms) : IsWritable ms := by
  unfold readSpaced? at h
  obtain ⟨⟨day, s⟩, hday, h⟩ := Option.bind_eq_some_iff.mp h
  obtain ⟨⟨⟨hour, minute⟩, s⟩, -, h⟩ := Option.bind_eq_some_iff.mp h
  obtain ⟨s, -, h⟩ := Option.bind_eq_some_iff.mp h
  obtain ⟨⟨second, s⟩, -, h⟩ := Option.bind_eq_some_iff.mp h
  dsimp only at h
  split at h
  · exact absurd h (by simp)
  · obtain ⟨t, ht, h⟩ := Option.bind_eq_some_iff.mp h
    obtain rfl := Option.some.inj h
    have htime := timeOfDay?_bounds ht (by decide)
    exact isWritable_add (readDay_bounds hday) (by unfold dayMs at *; omega)

theorem isWritable_of_readDate? {ms : Int} (h : readDate? s = some ms) : IsWritable ms := by
  unfold readDate? at h
  obtain ⟨⟨day, s⟩, hday, h⟩ := Option.bind_eq_some_iff.mp h
  dsimp only at h
  split at h
  · exact absurd h (by simp)
  · obtain rfl := Option.some.inj h
    have hstart := isWritable_add (t := 0) (readDay_bounds hday) (by decide)
    rwa [add_zero] at hstart

/-- **A written date denotes a point in time near the range of dates.** -/
theorem isWritable_of_readInstant? {ms : Int} (h : readInstant? s = some ms) : IsWritable ms := by
  unfold readInstant? at h
  simp only [Option.orElse_eq_orElse, Option.orElse_eq_or, Option.or_eq_some_iff] at h
  rcases h with h | ⟨-, h | ⟨-, h | ⟨-, h⟩⟩⟩
  · exact isWritable_of_readWithOffset? h
  · exact isWritable_of_readLocal? h
  · exact isWritable_of_readSpaced? h
  · exact isWritable_of_readDate? h

/-! ### Clocks -/

/-- What a clock may show: a point in time of the years for which there are dates; a leap second may
end the last of them. -/
def IsClockTime (now : Int) : Prop := firstDay * dayMs ≤ now ∧ now < endDay * dayMs + 1000

instance (now : Int) : Decidable (IsClockTime now) :=
  inferInstanceAs (Decidable (_ ∧ _))

theorem firstDay_eq : firstDay = -96465292 := rfl

theorem endDay_eq : endDay = 95026237 := rfl

theorem IsClockTime.isWritable {now : Int} (h : IsClockTime now) : IsWritable now := by
  unfold IsClockTime at h
  unfold IsWritable
  unfold dayMs at *
  omega

/-- Sixty-four bits hold what may be written as a date, and what lies up to two days before it. -/
theorem IsWritable.fitsInt64 {ms i : Int} (h : IsWritable ms) (hge : ms - 2 * dayMs ≤ i)
    (hle : i ≤ ms) : fitsInt64 i = true := by
  unfold IsWritable at h
  rw [firstDay_eq, endDay_eq] at h
  unfold GraphIndex.fitsInt64
  rw [decide_eq_true_iff, Int64.toInt_minValue, Int64.toInt_maxValue]
  unfold dayMs at *
  omega

theorem dayMs_pos : 0 < dayMs := by decide

/-- **The start of the day** is the last multiple of a day that is not in the future. -/
theorem isGreatest_midnight (now : Int) :
    IsGreatest {day | dayMs ∣ day ∧ day ≤ now} (midnight now) := by
  have hmidnight : midnight now = dayMs * (now / dayMs) := by
    have hdiv := Int.mul_ediv_add_emod now dayMs
    unfold midnight
    omega
  constructor
  · refine ⟨⟨_, hmidnight⟩, ?_⟩
    have hmod := Int.emod_nonneg now dayMs_pos.ne'
    unfold midnight
    omega
  · rintro day ⟨⟨k, rfl⟩, hle⟩
    rw [hmidnight]
    apply Int.mul_le_mul_of_nonneg_left _ dayMs_pos.le
    rwa [Int.le_ediv_iff_mul_le dayMs_pos, mul_comm]

end Calendar

end GraphIndex
