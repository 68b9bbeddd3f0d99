import GraphIndex.Proofs.Calendar.Instants
import GraphIndex.Proofs.Query.DateTexts

/-!
# How far back a date may go

A text denotes a point in time in unbounded integers (`Moment.Denotes`). Its count of days, weeks,
months or years is multiplied with care, so that a count that is too large is refused, and then
taken back from the start of the day. From 1970 on this always succeeds; before, the largest counts
lead further back than sixty-four bits reach (`Moment.Reaches`), and instead of a refusal there is
an overflow. `Moment.relative_exact` says that these are the only ones.
-/

namespace GraphIndex

namespace Moment

open Calendar

variable {s s' : String} {ds ds' : List Char} {days : Nat} {now now' : Int} {ms ms' : Int64}

/-- The point in time that a text denotes, in unbounded integers. -/
inductive Denotes (now : Int) (s : String) : Int → Prop where
  | today (h : Text.lowercase (Text.trim s) = "today") : Denotes now s (midnight now)
  | yesterday (h : Text.lowercase (Text.trim s) = "yesterday") :
    Denotes now s (midnight now - dayMs)
  | relative {digits : List Char} {days : Nat} (h : IsRelative s digits days) :
    Denotes now s (midnight now - goesBack digits days)
  | written {ms : Int} (h : readInstant? (Text.trim s).toList = some ms) : Denotes now s ms
  | count {ms : Int64} (h : Numeral.int64? (Text.trim s).toList = some ms) : Denotes now s ms.toInt

/-- Whether a count leads no further back from the start of the day than sixty-four bits reach. -/
def Reaches (now : Int) (digits : List Char) (days : Nat) : Prop :=
  Int64.minValue.toInt ≤ midnight now - goesBack digits days

instance : Decidable (Reaches now ds days) :=
  inferInstanceAs (Decidable (_ ≤ _))

/-! ### Counts that are refused -/

/-- A count is refused if it is not counted. -/
theorem ofText_of_not_isCounted (h : IsRelative s ds days) (hcounted : ¬ IsCounted ds days) :
    ofText now s = .error (.invalidDate (Text.lowercase (Text.trim s))) := by
  by_cases hdigits : ∀ c ∈ ds, c.isDigit = true
  · refine ofText_of_lt_goesBack h hdigits (Int.not_le.mp fun hle => ?_)
    exact hcounted ⟨hdigits, hle⟩
  · -- A sign is no digit of any script.
    have hsign : Numeral.spanSign ds = (false, ds) := by
      unfold Numeral.spanSign
      split
      · exact absurd (h.isDecimalDigit '-' List.mem_cons_self) (by decide)
      · exact absurd (h.isDecimalDigit '+' List.mem_cons_self) (by decide)
      · rfl
    have hspan : span? ds days = none := by
      unfold span?
      rw [Numeral.int64?_of_not_isDigit hsign hdigits]
      rfl
    rw [ofText_of_isRelative h, hspan]
    rfl

/-! ### Counts that are taken back -/

theorem goesBack_nonneg (ds : List Char) (days : Nat) : 0 ≤ goesBack ds days := by
  unfold goesBack dayMs
  positivity

theorem goesBack_mono (h : Numeral.value ds' ≤ Numeral.value ds) :
    goesBack ds' days ≤ goesBack ds days := by
  unfold goesBack dayMs
  gcongr

theorem midnight_le (now : Int) : midnight now ≤ now := (isGreatest_midnight now).1.2

theorem midnight_mono (h : now ≤ now') : midnight now ≤ midnight now' :=
  (isGreatest_midnight now').2 ⟨(isGreatest_midnight now).1.1, (midnight_le now).trans h⟩

theorem dvd_goesBack (ds : List Char) (days : Nat) : dayMs ∣ goesBack ds days :=
  Dvd.intro_left _ rfl

/-- The start of a day is less than a day away. -/
theorem lt_midnight_add (now : Int) : now < midnight now + dayMs := by
  have hlt := Int.emod_lt_of_pos now dayMs_pos
  unfold midnight
  omega

theorem fitsInt64_midnight (hnow : IsClockTime now) :
    fitsInt64 (midnight now) = true ∧ fitsInt64 (midnight now - dayMs) = true := by
  have hle := midnight_le now
  have hlt := lt_midnight_add now
  have hday := dayMs_pos
  exact ⟨hnow.isWritable.fitsInt64 (by omega) (by omega),
    hnow.isWritable.fitsInt64 (by omega) (by omega)⟩

/-- Nothing is taken back into the future, so only the past may be out of reach. -/
theorem reaches_iff_fitsInt64 (hnow : IsClockTime now) :
    Reaches now ds days ↔ fitsInt64 (midnight now - goesBack ds days) = true := by
  have hmidnight := (fitsInt64_midnight hnow).1
  have hback := goesBack_nonneg ds days
  unfold fitsInt64 at hmidnight ⊢
  rw [decide_eq_true_iff] at hmidnight ⊢
  unfold Reaches
  omega

/-- From 1970 on every count that is counted is in reach. -/
theorem reaches_of_nonneg (hnow : 0 ≤ now) (hcounted : IsCounted ds days) :
    Reaches now ds days := by
  have hday : (0 : Int) ∈ {day | dayMs ∣ day ∧ day ≤ now} := ⟨dvd_zero _, hnow⟩
  have hmidnight := (isGreatest_midnight now).2 hday
  have hle := hcounted.goesBack_le
  unfold Reaches
  rw [Int64.toInt_minValue]
  rw [Int64.toInt_maxValue] at hle
  omega

/-- A count in reach leads to the point in time that is meant. -/
theorem ofText_of_reaches (hnow : IsClockTime now) (h : IsRelative s ds days)
    (hcounted : IsCounted ds days) (hreaches : Reaches now ds days) :
    ∃ ms, ofText now s = .ok ms ∧ ms.toInt = midnight now - goesBack ds days := by
  rw [ofText_of_isCounted h hcounted]
  exact before_of_fitsInt64 ((reaches_iff_fitsInt64 hnow).mp hreaches)

/-- A count that is out of reach is not refused. -/
theorem ofText_of_not_reaches (hnow : IsClockTime now) (h : IsRelative s ds days)
    (hcounted : IsCounted ds days) (hreaches : ¬ Reaches now ds days) :
    ofText now s = .error .overflow := by
  rw [ofText_of_isCounted h hcounted]
  exact before_of_not_fitsInt64 (mt (reaches_iff_fitsInt64 hnow).mpr hreaches)

/-- What is returned for a relative date is the point in time that is meant. -/
theorem toInt_of_isRelative (hnow : IsClockTime now) (h : IsRelative s ds days)
    (hms : ofText now s = .ok ms) : ms.toInt = midnight now - goesBack ds days := by
  by_cases hcounted : IsCounted ds days
  · by_cases hreaches : Reaches now ds days
    · obtain ⟨ms', hms', hvalue⟩ := ofText_of_reaches hnow h hcounted hreaches
      obtain rfl := Except.ok.inj (hms.symm.trans hms')
      exact hvalue
    · rw [ofText_of_not_reaches hnow h hcounted hreaches] at hms
      exact absurd hms (by rintro ⟨⟩)
  · rw [ofText_of_not_isCounted h hcounted] at hms
    exact absurd hms (by rintro ⟨⟩)

/-- **Later clocks and smaller counts** never lead further back. -/
theorem le_of_isRelative (hnow : IsClockTime now) (hnow' : IsClockTime now') (hle : now ≤ now')
    (h : IsRelative s ds days) (h' : IsRelative s' ds' days)
    (hvalue : Numeral.value ds' ≤ Numeral.value ds) (hms : ofText now s = .ok ms)
    (hms' : ofText now' s' = .ok ms') : ms ≤ ms' := by
  have hmidnight := midnight_mono hle
  have hback : goesBack ds' days ≤ goesBack ds days := goesBack_mono hvalue
  have heq := toInt_of_isRelative hnow h hms
  have heq' := toInt_of_isRelative hnow' h' hms'
  rw [Int64.le_iff_toInt_le]
  omega

/-! ### Every text -/

/-- A text that is no relative date denotes what is returned, or it is refused. -/
theorem denotes_of_not_isRelative (hnow : IsClockTime now)
    (hrelative : ∀ ds days, ¬ IsRelative s ds days) :
    ofText now s = .error (.invalidDate s)
      ∨ ∃ ms, ofText now s = .ok ms ∧ Denotes now s ms.toInt := by
  have hnone : relative? (Text.lowercase (Text.trim s)).toList = none :=
    Option.eq_none_iff_forall_ne_some.mpr fun p hp => hrelative p.1 p.2 (isRelative_iff.mpr hp)
  obtain ⟨htoday, hyesterday⟩ := fitsInt64_midnight hnow
  -- Whatever fits sixty-four bits is returned as it is.
  have hexact : ∀ {i : Int}, fitsInt64 i = true → Denotes now s i →
      ∃ ms, (Except.ok (Int64.ofInt i) : Except QueryError Int64) = .ok ms
        ∧ Denotes now s ms.toInt := by
    intro i hfits hdenotes
    exact ⟨_, rfl, by rwa [toInt_ofInt_of_fitsInt64 hfits]⟩
  unfold ofText
  dsimp only
  split_ifs with hword hword'
  · exact Or.inr (hexact htoday (.today hword))
  · exact Or.inr (hexact hyesterday (.yesterday hword'))
  · rw [hnone]
    dsimp only
    cases hwritten : readInstant? (Text.trim s).toList with
    | some ms =>
      have hday := dayMs_pos
      have hfits := (isWritable_of_readInstant? hwritten).fitsInt64 (i := ms) (by omega) le_rfl
      exact Or.inr (hexact hfits (.written hwritten))
    | none =>
      cases hcount : Numeral.int64? (Text.trim s).toList with
      | some ms => exact Or.inr ⟨ms, rfl, .count hcount⟩
      | none => exact Or.inl rfl

/-- **Every text is refused or denotes what is returned**, unless its count is out of reach. -/
theorem denotes_of_ofText (hnow : IsClockTime now) (s : String) :
    (∃ t, ofText now s = .error (.invalidDate t))
      ∨ (∃ ms, ofText now s = .ok ms ∧ Denotes now s ms.toInt)
      ∨ ∃ ds days, IsRelative s ds days ∧ IsCounted ds days ∧ ¬ Reaches now ds days
        ∧ ofText now s = .error .overflow := by
  by_cases hrelative : ∃ ds days, IsRelative s ds days
  · obtain ⟨ds, days, h⟩ := hrelative
    by_cases hcounted : IsCounted ds days
    · by_cases hreaches : Reaches now ds days
      · obtain ⟨ms, hms, hvalue⟩ := ofText_of_reaches hnow h hcounted hreaches
        exact Or.inr (Or.inl ⟨ms, hms, by rw [hvalue]; exact .relative h⟩)
      · exact Or.inr (Or.inr ⟨ds, days, h, hcounted, hreaches,
          ofText_of_not_reaches hnow h hcounted hreaches⟩)
    · exact Or.inl ⟨_, ofText_of_not_isCounted h hcounted⟩
  · rcases denotes_of_not_isRelative hnow fun ds days h => hrelative ⟨ds, days, h⟩ with h | h
    · exact Or.inl ⟨_, h⟩
    · exact Or.inr (Or.inl h)

/-- **Relative dates are exact as far back as sixty-four bits reach**, by any clock.

* The start of the day is the last multiple of a day that is not in the future; sixty-four bits hold
  it, and the start of the day before.
* A text is refused or denotes what is returned, unless it counts further back than that.
* A count that is not counted is refused; any other leads to the point in time that is meant if that
  is in reach, and to an overflow if it is not.
* What is returned is a multiple of a day, and no later clock and no smaller count of the same unit
  leads to an earlier one.
* From 1970 on every count is in reach. -/
theorem relative_exact (hnow : IsClockTime now) :
    IsGreatest {day | dayMs ∣ day ∧ day ≤ now} (midnight now)
    ∧ (fitsInt64 (midnight now) = true ∧ fitsInt64 (midnight now - dayMs) = true)
    ∧ (∀ s, (∃ t, ofText now s = .error (.invalidDate t))
        ∨ (∃ ms, ofText now s = .ok ms ∧ Denotes now s ms.toInt)
        ∨ ∃ ds days, IsRelative s ds days ∧ IsCounted ds days ∧ ¬ Reaches now ds days
          ∧ ofText now s = .error .overflow)
    ∧ (∀ s ds days, IsRelative s ds days →
        (¬ IsCounted ds days → ofText now s = .error (.invalidDate (Text.lowercase (Text.trim s))))
        ∧ (IsCounted ds days → Reaches now ds days →
          ∃ ms, ofText now s = .ok ms ∧ ms.toInt = midnight now - goesBack ds days)
        ∧ (IsCounted ds days → ¬ Reaches now ds days → ofText now s = .error .overflow))
    ∧ (∀ s ds days ms, IsRelative s ds days → ofText now s = .ok ms →
        dayMs ∣ ms.toInt ∧ ∀ now' s' ds' ms', IsClockTime now' → now ≤ now' →
          IsRelative s' ds' days → Numeral.value ds' ≤ Numeral.value ds → ofText now' s' = .ok ms' →
          ms ≤ ms')
    ∧ (0 ≤ now → ∀ ds days, IsCounted ds days → Reaches now ds days) := by
  refine ⟨isGreatest_midnight now, fitsInt64_midnight hnow, denotes_of_ofText hnow,
    fun s ds days h => ⟨ofText_of_not_isCounted h, ofText_of_reaches hnow h,
      ofText_of_not_reaches hnow h⟩,
    fun s ds days ms h hms => ⟨?_, ?_⟩, fun hpast ds days => reaches_of_nonneg hpast⟩
  · rw [toInt_of_isRelative hnow h hms]
    exact dvd_sub (isGreatest_midnight now).1.1 (dvd_goesBack ds days)
  · intro now' s' ds' ms' hnow' hle h' hvalue hms'
    exact le_of_isRelative hnow hnow' hle h h' hvalue hms hms'

/-- The day before 1970, and the most days that may be counted back from it. -/
theorem relative_exact_before_1970 :
    IsClockTime (-1) ∧ IsRelative "106751991166d" "106751991166".toList 1
      ∧ Reaches (-1) "106751991166".toList 1
      ∧ ∃ ms, ofText (-1) "106751991166d" = .ok ms ∧ ms.toInt = -9223372036828800000
        ∧ dayMs ∣ ms.toInt := by
  have hnow : IsClockTime (-1) := by decide +kernel
  obtain ⟨-, -, -, hcounts, hdays, -⟩ := relative_exact hnow
  have h : IsRelative "106751991166d" "106751991166".toList 1 :=
    isRelative_iff.mpr (by decide +kernel)
  have hcounted : IsCounted "106751991166".toList 1 :=
    ⟨List.all_eq_true.mp (by decide +kernel), by decide +kernel⟩
  have hreaches : Reaches (-1) "106751991166".toList 1 := by decide +kernel
  obtain ⟨ms, hms, hvalue⟩ := (hcounts _ _ _ h).2.1 hcounted hreaches
  exact ⟨hnow, h, hreaches, ms, hms, hvalue.trans (by decide +kernel), (hdays _ _ _ _ h hms).1⟩

/-- One more day is not refused: the count is counted, but it is out of reach. -/
theorem not_relative_exact_before_1970 :
    IsClockTime (-1) ∧ IsRelative "106751991167d" "106751991167".toList 1
      ∧ midnight (-1) - goesBack "106751991167".toList 1 = -9223372036915200000
      ∧ ofText (-1) "106751991167d" = .error .overflow :=
  ⟨by decide +kernel, isRelative_iff.mpr (by decide +kernel), by decide +kernel, by rfl⟩

end Moment

end GraphIndex
