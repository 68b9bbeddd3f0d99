import GraphIndex.Proofs.Number.Exact

/-!
# Overflow

Rounding to the nearest double never gives a NaN. It gives an infinity exactly if the number is no
nearer to the largest double than to the power of two after it (`isFinite_ofRatio_iff`), and for a
decimal the same holds at every exponent (`isFinite_ofDecimal_iff`).
-/

namespace GraphIndex.Binary64

variable {num den : Nat}

/-- The least number that is rounded to infinity: half a step above the largest double. -/
def overflow : ℚ := 2 ^ (1024 : Int) - 2 ^ (970 : Int)

/-- It lies half a step below the power of two. -/
theorem overflow_eq : overflow = (2 ^ 53 - 1 / 2) * 2 ^ (971 : Int) := by
  have hpow : (2 : ℚ) ^ (1024 : Int) = 2 ^ 53 * 2 ^ (971 : Int) := by
    rw [show (1024 : Int) = 53 + 971 by norm_num, zpow_add₀ (by norm_num)]
    rfl
  have hhalf : (2 : ℚ) ^ (970 : Int) = 2 ^ (971 : Int) / 2 := by
    rw [show (970 : Int) = 971 - 1 by norm_num, zpow_sub_one₀ (by norm_num)]
    ring
  unfold overflow
  rw [hpow, hhalf]
  ring

theorem overflow_pos : 0 < overflow := by
  rw [overflow_eq]
  positivity

/-! ### Fields -/

theorem fields_ofFields (negative : Bool) {m : Nat} (hm : m < 2 ^ 63) :
    (ofFields negative m).exponentField = m / 2 ^ 52
      ∧ (ofFields negative m).fractionField = m % 2 ^ 52 := by
  have hbits := toNat_bits_ofFields negative hm
  have hexponent : (ofFields negative m).exponentField
      = (ofFields negative m).bits.toNat / 2 ^ 52 % 2 ^ 11 := rfl
  have hfraction : (ofFields negative m).fractionField
      = (ofFields negative m).bits.toNat % 2 ^ 52 := rfl
  rw [hbits] at hexponent hfraction
  cases negative <;> simp only [Bool.false_eq_true, if_false, if_true] at hexponent hfraction <;>
    omega

section

variable {m : Nat} (negative : Bool) (hm : m ≤ 2047 * 2 ^ 52)

include hm

/-- A double is finite if its bits are below the exponent of all ones. -/
theorem isFinite_ofFields : (ofFields negative m).isFinite = true ↔ m < 2047 * 2 ^ 52 := by
  obtain ⟨hexponent, -⟩ := fields_ofFields negative (lt_of_le_of_lt hm (by decide))
  unfold isFinite
  rw [bne_iff_ne, hexponent]
  omega

theorem isNaN_ofFields : (ofFields negative m).isNaN = false := by
  obtain ⟨hexponent, hfraction⟩ := fields_ofFields negative (lt_of_le_of_lt hm (by decide))
  unfold isNaN
  rw [Bool.and_eq_false_iff, beq_eq_false_iff_ne, bne_eq_false_iff_eq, hexponent, hfraction]
  omega

end

theorem ofRatio_eq_ofFields (negative : Bool) (hnum : 0 < num) :
    ofRatio negative num den = ofFields negative
      (min ((scaleFor num den + 1074).toNat * 2 ^ 52 + roundAt num den (scaleFor num den))
        (2047 * 2 ^ 52)) := by
  unfold ofRatio
  rw [if_neg (by omega)]
  rfl

theorem isNaN_ofRatio (negative : Bool) (num den : Nat) :
    (ofRatio negative num den).isNaN = false := by
  rcases Nat.eq_zero_or_pos num with rfl | hnum
  · exact isNaN_ofFields negative (by decide)
  · rw [ofRatio_eq_ofFields negative hnum]
    exact isNaN_ofFields negative (Nat.min_le_right _ _)

theorem isNaN_ofDecimal (negative : Bool) (digits : Nat) (exponent : Int) :
    (ofDecimal negative digits exponent).isNaN = false := by
  unfold ofDecimal
  dsimp only
  split_ifs
  · exact isNaN_ofFields negative (by decide)
  · exact isNaN_ofFields negative le_rfl
  · exact isNaN_ofFields negative (by decide)
  · exact isNaN_ofRatio negative _ _

/-! ### Rounding below a bound -/

/-- What is rounded stays below an even number if it is more than a half away from it; a half is
rounded up to the even one. -/
theorem roundDiv_lt_iff {a b n : Nat} (hb : 0 < b) (hn : n % 2 = 0) :
    roundDiv a b < n ↔ 2 * a + b < 2 * (n * b) := by
  have hdiv : b * (a / b) + a % b = a := Nat.div_add_mod a b
  have hlt : a % b < b := Nat.mod_lt a hb
  unfold roundDiv
  dsimp only
  generalize a / b = q at *
  generalize a % b = r at *
  -- Only between the quotient and the next integer does the remainder matter; there evenness of `n`
  -- breaks a tie.
  obtain hle | rfl | hlarge : q + 2 ≤ n ∨ n = q + 1 ∨ n ≤ q := by omega
  · have hstep : b * (q + 2) ≤ n * b := by
      rw [Nat.mul_comm n b]
      exact Nat.mul_le_mul_left b hle
    rw [Nat.mul_add] at hstep
    split_ifs <;> omega
  · have hstep : (q + 1) * b = b * q + b := by ring
    rw [hstep]
    split_ifs <;> omega
  · have hstep : n * b ≤ b * q := by
      rw [Nat.mul_comm b q]
      exact Nat.mul_le_mul_right b hlarge
    split_ifs <;> omega

/-- A rounded significand stays below an even number. -/
theorem roundAt_lt_iff (hden : 0 < den) (q : Int) {n : Nat} (hn : n % 2 = 0) :
    roundAt num den q < n ↔ (num : ℚ) / den < (n - 1 / 2) * 2 ^ q := by
  have hdivisor : 0 < den * Nat.pow 2 q.toNat := Nat.mul_pos hden (Nat.two_pow_pos _)
  have hdivisor' : (0 : ℚ) < (den * Nat.pow 2 q.toNat : Nat) := by exact_mod_cast hdivisor
  rw [← div_lt_iff₀ (by positivity), ← scaled_eq, div_lt_iff₀ hdivisor']
  unfold roundAt
  rw [roundDiv_lt_iff hdivisor hn]
  generalize num * Nat.pow 2 (-q).toNat = a
  generalize den * Nat.pow 2 q.toNat = b
  have hcast : 2 * a + b < 2 * (n * b) ↔ 2 * (a : ℚ) + b < 2 * (n * b) := by
    exact_mod_cast Iff.rfl
  rw [hcast]
  constructor <;> intro h <;> linarith

theorem roundAt_lt_two_pow (hden : 0 < den) (q : Int) :
    roundAt num den q < 2 ^ 53 ↔ (num : ℚ) / den < (2 ^ 53 - 1 / 2) * 2 ^ q := by
  have hlt : roundAt num den q < 2 ^ 53 ↔ (num : ℚ) / den < ((2 ^ 53 : Nat) - 1 / 2) * 2 ^ q :=
    roundAt_lt_iff hden q (by decide)
  rwa [Nat.cast_pow, Nat.cast_ofNat] at hlt

/-! ### Ratios -/

/-- Below the range of normal doubles the scale is the least one. -/
theorem scaleFor_of_small (hnum : 0 < num) (hden : 0 < den)
    (hsmall : (num : ℚ) / den < 2 ^ (-1022 : Int)) : scaleFor num den = -1074 := by
  have hlower := (ratio_bounds hnum hden).1.trans hsmall
  rw [zpow_lt_zpow_iff_right₀ (by norm_num)] at hlower
  unfold scaleFor
  dsimp only
  split_ifs <;> omega

/-- **Ratios overflow** from half a step above the largest double on. -/
theorem isFinite_ofRatio_iff (negative : Bool) (hden : 0 < den) :
    (ofRatio negative num den).isFinite = true ↔ (num : ℚ) / den < overflow := by
  rcases Nat.eq_zero_or_pos num with rfl | hnum
  · have hzero : ofRatio negative 0 den = ofFields negative 0 := rfl
    rw [hzero, isFinite_ofFields negative (by decide), Nat.cast_zero, zero_div]
    exact iff_of_true (by decide) overflow_pos
  rw [ofRatio_eq_ofFields negative hnum, isFinite_ofFields negative (Nat.min_le_right _ _),
    min_lt_iff, lt_self_iff_false, or_false]
  -- With the scale the bits are known but for the significand.
  have hround : roundAt num den (scaleFor num den) < 2 ^ 53 ↔ _ :=
    roundAt_lt_two_pow hden (scaleFor num den)
  rw [overflow_eq]
  rcases lt_or_ge ((num : ℚ) / den) (2 ^ (-1022 : Int)) with hsmall | hnormal
  · rw [scaleFor_of_small hnum hden hsmall] at hround ⊢
    have hstep : (2 : ℚ) ^ (-1022 : Int) < (2 ^ 53 - 1 / 2) * 2 ^ (-1074 : Int) := by
      rw [show (-1022 : Int) = 52 + -1074 by norm_num, zpow_add₀ (by norm_num)]
      gcongr
      norm_num
    have hlt := hround.mpr (hsmall.trans hstep)
    refine iff_of_true (by omega) ((hsmall.trans hstep).trans ?_)
    gcongr <;> norm_num
  · obtain ⟨hscale, hlower, hupper⟩ := scaleFor_bounds hnum hden hnormal
    obtain ⟨hge, hle⟩ := roundAt_bounds hden hlower hupper
    generalize scaleFor num den = q at *
    generalize roundAt num den q = m at *
    generalize (num : ℚ) / den = v at *
    obtain hbelow | rfl | habove : q < 971 ∨ q = 971 ∨ 971 < q := by omega
    · refine iff_of_true (by omega) (hupper.trans_le ?_)
      calc (2 : ℚ) ^ (q + 53) ≤ 2 ^ (52 + 971 : Int) :=
            zpow_le_zpow_right₀ (by norm_num) (by omega)
        _ ≤ (2 ^ 53 - 1 / 2) * 2 ^ (971 : Int) := by
          rw [zpow_add₀ (by norm_num)]
          gcongr
          norm_num
    · rw [← hround]
      omega
    · refine iff_of_false (by omega) (not_lt.mpr (le_trans ?_ hlower))
      calc (2 ^ 53 - 1 / 2 : ℚ) * 2 ^ (971 : Int) ≤ 2 ^ (53 + 971 : Int) := by
            rw [zpow_add₀ (by norm_num)]
            gcongr
            norm_num
        _ ≤ 2 ^ (q + 52) := zpow_le_zpow_right₀ (by norm_num) (by omega)

/-! ### Decimals -/

theorem overflow_le_ten_zpow {exponent : Int} (h : 400 < exponent) :
    overflow ≤ (10 : ℚ) ^ exponent := by
  have hbase : (2 : ℚ) ^ (8 : Int) ≤ 10 ^ (3 : Int) := by norm_num
  calc overflow ≤ 2 ^ (1024 : Int) := sub_le_self _ (by positivity)
    _ = (2 ^ (8 : Int)) ^ (128 : Int) := by
      rw [← zpow_mul]
      rfl
    _ ≤ (10 ^ (3 : Int)) ^ (128 : Int) := zpow_le_zpow_left₀ (by norm_num) (by norm_num) hbase
    _ = 10 ^ (384 : Int) := by
      rw [← zpow_mul]
      rfl
    _ ≤ 10 ^ exponent := zpow_le_zpow_right₀ (by norm_num) (by omega)

theorem one_le_overflow : 1 ≤ overflow := by
  rw [overflow_eq]
  exact one_le_mul_of_one_le_of_one_le (by norm_num) (one_le_zpow₀ (by norm_num) (by norm_num))

/-- Three hundred and eight digits before the point do not overflow. -/
theorem ten_pow_lt_overflow : (10 : ℚ) ^ 308 < overflow := by
  have hpow : (2 : ℚ) ^ (971 : Int) = (2 ^ 103) ^ 9 * 2 ^ 44 := by
    rw [← pow_mul, ← pow_add, ← zpow_natCast]
    rfl
  calc (10 : ℚ) ^ 308 = (10 ^ 31) ^ 9 * 10 ^ 29 := by rw [← pow_mul, ← pow_add]
    _ ≤ (2 ^ 103) ^ 9 * (2 ^ 44 * (2 ^ 52 + 2 ^ 51)) := by gcongr <;> norm_num
    _ = (2 ^ 52 + 2 ^ 51) * 2 ^ (971 : Int) := by
      rw [hpow]
      ring
    _ < overflow := by
      rw [overflow_eq]
      gcongr
      norm_num

/-- **Decimals overflow** in the same way, whatever their exponent. -/
theorem isFinite_ofDecimal_iff (negative : Bool) (digits : Nat) (exponent : Int) :
    (ofDecimal negative digits exponent).isFinite = true
      ↔ (digits : ℚ) * 10 ^ exponent < overflow := by
  have hzero : (zero negative).isFinite = true := (isFinite_ofFields negative (by decide)).mpr
    (by decide)
  unfold ofDecimal
  dsimp only
  split_ifs with hnone hlarge hsmall
  · rw [hnone, Nat.cast_zero, zero_mul]
    exact iff_of_true hzero overflow_pos
  · -- The power alone is too large.
    refine iff_of_false ?_ (not_lt.mpr ?_)
    · exact fun hfinite => absurd ((isFinite_ofFields negative le_rfl).mp hfinite) (lt_irrefl _)
    · have hone : (1 : ℚ) ≤ digits := by exact_mod_cast Nat.one_le_iff_ne_zero.mpr hnone
      exact (overflow_le_ten_zpow hlarge).trans (le_mul_of_one_le_left (by positivity) hone)
  · -- The digits cannot make up for the power.
    refine iff_of_true hzero (lt_of_lt_of_le ?_ one_le_overflow)
    have hdigits : (digits : ℚ) < 2 ^ (digits.log2 + 1) := by exact_mod_cast Nat.lt_log2_self
    calc (digits : ℚ) * 10 ^ exponent
        < 2 ^ (digits.log2 + 1) * 10 ^ exponent := by gcongr
      _ ≤ 10 ^ (digits.log2 + 1) * 10 ^ exponent := by
        gcongr
        norm_num
      _ = 10 ^ ((digits.log2 : Int) + 1 + exponent) := by
        rw [zpow_add₀ (by norm_num)]
        norm_cast
      _ ≤ 1 := zpow_le_one_of_nonpos₀ (by norm_num) (by omega)
  · have hden : 0 < Nat.pow 10 (-exponent).toNat := Nat.pow_pos (by decide)
    rw [isFinite_ofRatio_iff negative hden, zpow_eq_div (by norm_num) exponent,
      Nat.pow_eq, Nat.pow_eq]
    push_cast
    rw [mul_div_assoc]

end GraphIndex.Binary64
