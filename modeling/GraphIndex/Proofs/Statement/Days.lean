import GraphIndex.Proofs.Number.Exact
import GraphIndex.Statement.Dates
import GraphIndex.Statement.Meaning

/-!
# Days of the store

The store computes dates in doubles. For whole seconds nothing is lost on the way
(`dayOfSeconds?_ofInt`): those within the range of dates fall on the day that contains them, and the
others, where doubles are no longer exact, on none.
-/

namespace GraphIndex

open Binary64

/-! ### Seconds -/

/-- The milliseconds from the start of Julian day zero to a number of seconds since 1970. -/
def storeMs (seconds : Binary64) : Binary64 := seconds * .ofInt 1000 + .ofInt julianMs

theorem dayOfSeconds?_eq {seconds : Binary64} (h : (storeMs seconds).isFinite = true) :
    dayOfSeconds? seconds
      = if (0 ≤ (storeMs seconds).value ∧ (storeMs seconds).value < lastJulianMs) ∧
            (storeMs seconds + .ofRatio false 1 2).truncate < lastJulianMs then
          some (((storeMs seconds + .ofRatio false 1 2).truncate - julianMs) / msPerDay)
        else none := by
  have hlower : (compareInt? 0 (storeMs seconds)).any (· != .gt) = true ↔
      0 ≤ (storeMs seconds).value := by
    have hgt := compareInt?_eq_gt_iff h 0
    rw [Int.cast_zero] at hgt
    rw [← not_lt, ← hgt, compareInt?_of_isFinite h, Option.any_some, bne_iff_ne, ne_eq,
      Option.some.injEq]
  have hupper : (compareInt? lastJulianMs (storeMs seconds) == some .gt) = true ↔
      (storeMs seconds).value < lastJulianMs :=
    beq_iff_eq.trans (compareInt?_eq_gt_iff h lastJulianMs)
  show (if ((compareInt? 0 (storeMs seconds)).any (· != .gt)
    && (compareInt? lastJulianMs (storeMs seconds) == some .gt) && decide _) = true then _ else _)
      = _
  simp only [Bool.and_eq_true, hlower, hupper, decide_eq_true_eq]
  rfl

section

variable {s : Int}

/-- Small numbers of seconds are turned into milliseconds exactly. -/
theorem storeMs_of_lt (h : s.natAbs < 2 ^ 41) :
    (storeMs (.ofInt s)).isFinite = true ∧
      (storeMs (.ofInt s)).value = (s * 1000 + julianMs : Int) := by
  have hs := rounds_ofInt (i := s) (by omega)
  have hthousand := rounds_ofInt (i := 1000) (by decide)
  have hjulian := rounds_ofInt (i := julianMs) (by decide)
  -- The product and the sum are integers of less than fifty-two bits.
  have hproduct : (Binary64.ofInt s).value * (Binary64.ofInt 1000).value = (s * 1000 : Int) := by
    rw [value_ofInt (by omega), value_ofInt (by decide)]
    push_cast
    ring
  have hmul := rounds_mul hs.isFinite hthousand.isFinite
    (by rw [hproduct]; exact inNormalRange_intCast (by omega))
  rw [hproduct] at hmul
  have hmulvalue := hmul.exact (isShort_intCast (by omega))
  have hsum : (Binary64.ofInt s * Binary64.ofInt 1000).value + (Binary64.ofInt julianMs).value
      = (s * 1000 + julianMs : Int) := by
    rw [hmulvalue, value_ofInt (by decide)]
    push_cast
    ring
  have hbound : (s * 1000 + julianMs).natAbs < 2 ^ 52 := by
    unfold julianMs
    omega
  have hadd := rounds_add hmul.isFinite hjulian.isFinite
    (by rw [hsum]; exact inNormalRange_intCast (by omega))
  rw [hsum] at hadd
  exact ⟨hadd.isFinite, hadd.exact (isShort_intCast hbound)⟩

/-- Half a millisecond more is cut off again. -/
theorem truncate_add_half {x : Binary64} {i : Int} (hx : x.isFinite = true) (hvalue : x.value = i)
    (hi : 0 ≤ i) (hlt : i < 2 ^ 51) : (x + .ofRatio false 1 2).truncate = i := by
  -- Half a millisecond and the sum with it are short enough to be exact.
  have hhalf : Rounds (.ofRatio false 1 2) _ := rounds_ofRatio false (by decide)
    (inNormalRange_of_bounds (Or.inr (by norm_num)) (by norm_num))
  have hhalfvalue : (Binary64.ofRatio false 1 2).value = 1 / 2 :=
    (hhalf.exact ⟨1, by decide, by norm_num [signed]⟩).trans (by norm_num [signed])
  have hsum : x.value + (Binary64.ofRatio false 1 2).value = i + 1 / 2 := by rw [hvalue, hhalfvalue]
  have hi' : (0 : ℚ) ≤ i := by exact_mod_cast hi
  have hlt' : (i : ℚ) < 2 ^ 51 := by exact_mod_cast hlt
  have habs : |(i : ℚ) + 1 / 2| = i + 1 / 2 := abs_of_nonneg (by linarith)
  have hadd := rounds_add hx hhalf.isFinite (by
    rw [hsum]
    apply inNormalRange_of_bounds
    · exact Or.inr (by rw [habs]; linarith)
    · rw [habs]
      linarith)
  rw [hsum] at hadd
  have hvalue' := hadd.exact ⟨(2 * i + 1).toNat, by omega, by
    rw [habs, ← Int.cast_natCast, Int.toNat_of_nonneg (by omega)]
    push_cast
    ring⟩
  apply truncate_eq hi
  · rw [hvalue']
    linarith
  · rw [hvalue']
    linarith

/-- A thousand times a large number of seconds, up to a factor near to one. -/
theorem rounds_thousandfold (h : 2 ^ 41 ≤ s.natAbs) (hs : s.natAbs ≤ 2 ^ 63) :
    ∃ c : ℚ, 900 * 2 ^ 41 ≤ |c * s| ∧ |c * s| ≤ 1100 * 2 ^ 63 ∧
      (Binary64.ofInt s * .ofInt 1000).isFinite = true ∧
      (Binary64.ofInt s * .ofInt 1000).value = c * s := by
  have hs' := rounds_ofInt hs
  have hthousand := rounds_ofInt (i := 1000) (by decide)
  have hlower : (2 : ℚ) ^ 41 ≤ |(s : ℚ)| := by
    rw [← Int.cast_abs, ← Nat.cast_natAbs]
    exact_mod_cast h
  have hupper : |(s : ℚ)| ≤ 2 ^ 63 := by
    rw [← Int.cast_abs, ← Nat.cast_natAbs]
    exact_mod_cast hs
  obtain ⟨c, hc, hc', hsvalue⟩ := hs'.exists_factor
  -- Two roundings change the size by a factor close to one each.
  have hproduct : (Binary64.ofInt s).value * (Binary64.ofInt 1000).value = c * 1000 * s := by
    rw [hsvalue, value_ofInt (by decide)]
    push_cast
    ring
  have habs : |c * 1000 * (s : ℚ)| = c * 1000 * |(s : ℚ)| := by
    rw [abs_mul, abs_of_nonneg (by linarith)]
  have hmul := rounds_mul hs'.isFinite hthousand.isFinite (by
    rw [hproduct]
    refine inNormalRange_of_bounds (Or.inr ?_) ?_ <;> rw [habs] <;> nlinarith)
  rw [hproduct] at hmul
  obtain ⟨d, hd, hd', hmulvalue⟩ := hmul.exists_factor
  have hlow : 900 ≤ d * (c * 1000) := by nlinarith
  have hhigh : d * (c * 1000) ≤ 1100 := by nlinarith
  have habs' : |d * (c * 1000) * (s : ℚ)| = d * (c * 1000) * |(s : ℚ)| := by
    rw [abs_mul, abs_of_nonneg (by linarith)]
  refine ⟨d * (c * 1000), ?_, ?_, hmul.isFinite, hmulvalue.trans (by ring)⟩
  · rw [habs']
    nlinarith
  · rw [habs']
    nlinarith

/-- Large numbers of seconds stay outside of the range of dates. -/
theorem storeMs_of_ge (h : 2 ^ 41 ≤ s.natAbs) (hs : s.natAbs ≤ 2 ^ 63) :
    (storeMs (.ofInt s)).isFinite = true ∧
      ¬ (0 ≤ (storeMs (.ofInt s)).value ∧ (storeMs (.ofInt s)).value < lastJulianMs) := by
  obtain ⟨c, hlow, hhigh, hfinite, hvalue⟩ := rounds_thousandfold h hs
  have hjulian := rounds_ofInt (i := julianMs) (by decide)
  have hjulianvalue : (Binary64.ofInt julianMs).value = 210866760000000 :=
    (value_ofInt (by decide)).trans (by norm_num [julianMs])
  have hlast : ((lastJulianMs : Int) : ℚ) = 464269060800000 := by norm_num [lastJulianMs]
  have habs : |(210866760000000 : ℚ)| = 210866760000000 := by norm_num
  generalize c * (s : ℚ) = v at hlow hhigh hvalue
  have hadd := rounds_add hfinite hjulian.isFinite (by
    rw [hvalue, hjulianvalue]
    have htriangle := abs_sub_abs_le_abs_add v 210866760000000
    have htriangle' := abs_add_le v 210866760000000
    rw [habs] at htriangle htriangle'
    exact inNormalRange_of_bounds (Or.inr (by linarith)) (by linarith))
  rw [hvalue, hjulianvalue] at hadd
  obtain ⟨d, hd, hd', hsum⟩ := hadd.exists_factor
  have hstore : (storeMs (.ofInt s)).value = d * (v + 210866760000000) := hsum
  refine ⟨hadd.isFinite, fun ⟨hzero, hlt⟩ => ?_⟩
  rw [hstore] at hzero hlt
  rw [hlast] at hlt
  -- The sum is far below zero or far above the last date.
  rcases abs_cases v with ⟨habs', -⟩ | ⟨habs', -⟩
  · rw [habs'] at hlow
    nlinarith
  · rw [habs'] at hlow
    nlinarith

/-- **The day of a number of seconds** is the one that contains them, if there is one. -/
theorem dayOfSeconds?_ofInt (hs : s.natAbs ≤ 2 ^ 63) :
    dayOfSeconds? (.ofInt s)
      = if -210866760000 ≤ s ∧ s < 253402300800 then some (s / 86400) else none := by
  -- Up to `2 ^ 41` the product is exact; beyond it the time is out of range either way.
  rcases lt_or_ge s.natAbs (2 ^ 41) with hlt | hge
  · obtain ⟨hfinite, hvalue⟩ := storeMs_of_lt hlt
    rw [dayOfSeconds?_eq hfinite, hvalue]
    have hrange : (0 : ℚ) ≤ (s * 1000 + julianMs : Int) ∧
        ((s * 1000 + julianMs : Int) : ℚ) < lastJulianMs ↔
        -210866760000 ≤ s ∧ s < 253402300800 := by
      rw [Int.cast_lt, ← Int.cast_zero, Int.cast_le]
      unfold julianMs lastJulianMs
      omega
    simp only [hrange]
    split_ifs with hin hin' hin'
    · rw [truncate_add_half hfinite hvalue (by unfold julianMs; omega) (by unfold julianMs; omega)]
      unfold julianMs msPerDay
      congr 1
      omega
    · exact absurd hin.1 hin'
    · rw [truncate_add_half hfinite hvalue (by unfold julianMs; omega)
        (by unfold julianMs; omega)] at hin
      unfold julianMs lastJulianMs at hin
      exact absurd ⟨hin', by omega⟩ hin
    · rfl
  · obtain ⟨hfinite, hvalue⟩ := storeMs_of_ge hge hs
    rw [dayOfSeconds?_eq hfinite, if_neg fun h => hvalue h.1, if_neg]
    omega

end

end GraphIndex
