import GraphIndex.Proofs.Number.Overflow
import GraphIndex.Proofs.Number.Shortest

/-!
# Digits times a power of ten

A natural number and a power of ten are rounded to doubles, and so is the product of the two. It is
finite if what is meant lies two steps of the largest doubles below the overflow
(`isFinite_ofInt_mul_tenPow`), and so do the shortest decimals of all doubles but the two largest
(`upperEnd_le_safeLimit`).
-/

namespace GraphIndex.Binary64

variable {x y : Binary64} {num den : Nat}

theorem abs_value (x : Binary64) : |x.value| = x.magnitude := by
  unfold value
  rw [abs_signed, abs_of_nonneg (by unfold magnitude; positivity)]

/-- A product overflows as its factors say. -/
theorem isFinite_mul_iff (hx : x.isFinite = true) (hy : y.isFinite = true) :
    (x * y).isFinite = true ↔ x.magnitude * y.magnitude < overflow := by
  have hden : 0 < x.denominator * y.denominator := Nat.mul_pos x.denominator_pos y.denominator_pos
  rw [mul_eq_ofRatio hx hy, isFinite_ofRatio_iff _ hden, div_eq_mul_magnitude]

/-- Rounding adds no more than its error. -/
theorem magnitude_ofRatio_le (hden : 0 < den) (hrange : InNormalRange ((num : ℚ) / den)) :
    (ofRatio false num den).magnitude ≤ (1 + unit) * (num / den) := by
  have hrounds := rounds_ofRatio false hden hrange
  have hvalue : (ofRatio false num den).value = (ofRatio false num den).magnitude := by
    unfold value
    rw [(ofRatio_spec false num den).1]
    rfl
  have hclose := (abs_le.mp hrounds.close).2
  have hpos : (0 : ℚ) ≤ num / den := by positivity
  rw [hvalue] at hclose
  simp only [signed, Bool.false_eq_true, if_false, abs_of_nonneg hpos] at hclose
  linarith

theorem ofInt_natCast (m : Nat) : ofInt m = ofRatio false m 1 := by
  unfold ofInt ofSignedRatio
  rw [decide_eq_false (by omega), Int.natAbs_natCast]

/-- The double of a natural number of sixty-four bits. -/
theorem isFinite_ofInt_natCast {m : Nat} (hm : m < UInt64.size) :
    (ofInt m).isFinite = true ∧ (ofInt m).magnitude ≤ (1 + unit) * m := by
  have hvalue : (m : ℚ) / (1 : Nat) = m := by rw [Nat.cast_one, div_one]
  have hrange : InNormalRange ((m : ℚ) / (1 : Nat)) := by
    have hlt : (m : ℚ) < 2 ^ 64 := by exact_mod_cast hm
    rw [hvalue]
    apply inNormalRange_of_bounds
    · -- Zero is in range by itself.
      rcases Nat.eq_zero_or_pos m with rfl | hpos
      · exact Or.inl Nat.cast_zero
      · have hone : (1 : ℚ) ≤ m := by exact_mod_cast hpos
        right
        rw [abs_of_pos (by linarith)]
        linarith
    · rw [abs_of_nonneg (by positivity)]
      exact hlt.trans (by norm_num)
  have hle := magnitude_ofRatio_le Nat.one_pos hrange
  rw [hvalue] at hle
  rw [ofInt_natCast]
  exact ⟨(rounds_ofRatio false Nat.one_pos hrange).isFinite, hle⟩

theorem ten_pow_lt_two_pow : (10 : ℚ) ^ 307 < 2 ^ (1023 : Int) := by
  have hlarge : (10 : ℚ) ^ 308 < 2 ^ (1024 : Int) :=
    ten_pow_lt_overflow.trans (sub_lt_self _ (by positivity))
  have hstep : (2 : ℚ) ^ (1024 : Int) = 2 ^ (1023 : Int) * 2 := zpow_add_one₀ (by norm_num) 1023
  have hpos : (0 : ℚ) < 10 ^ 307 := by positivity
  rw [hstep, pow_succ] at hlarge
  generalize (10 : ℚ) ^ 307 = v at *
  generalize (2 : ℚ) ^ (1023 : Int) = w at *
  linarith

/-- The double of a power of ten in the range of the bound. -/
theorem isFinite_tenPow {e : Nat} (he : e ≤ 307) :
    (ofDecimal false 1 e).isFinite = true
      ∧ (ofDecimal false 1 e).magnitude ≤ (1 + unit) * 10 ^ e := by
  have hratio : ofDecimal false 1 e = ofRatio false (10 ^ e) 1 := by
    unfold ofDecimal
    dsimp only
    have hnonneg := Int.natCast_nonneg e
    rw [if_neg (by decide), if_neg (by omega), if_neg (by omega)]
    simp
  have hvalue : ((10 ^ e : Nat) : ℚ) / (1 : Nat) = 10 ^ e := by
    rw [Nat.cast_one, div_one, Nat.cast_pow, Nat.cast_ofNat]
  have hrange : InNormalRange (((10 ^ e : Nat) : ℚ) / (1 : Nat)) := by
    have hone : (1 : ℚ) ≤ 10 ^ e := one_le_pow₀ (by norm_num)
    have hbelow : (10 : ℚ) ^ e < 2 ^ (1023 : Int) :=
      lt_of_le_of_lt (pow_le_pow_right₀ (by norm_num) he) ten_pow_lt_two_pow
    rw [hvalue]
    refine Or.inr ⟨?_, ?_⟩
    · rw [abs_of_pos (by linarith)]
      exact (zpow_le_one_of_nonpos₀ (by norm_num) (by norm_num)).trans hone
    · rw [abs_of_pos (by linarith)]
      exact hbelow
  have hle := magnitude_ofRatio_le Nat.one_pos hrange
  rw [hvalue] at hle
  rw [hratio]
  exact ⟨(rounds_ofRatio false Nat.one_pos hrange).isFinite, hle⟩

/-! ### The size of doubles -/

theorem fractionField_lt (x : Binary64) : x.fractionField < 2 ^ 52 :=
  Nat.mod_lt _ (Nat.two_pow_pos 52)

/-- A double is its sign, its exponent and its fraction. -/
theorem eq_ofFields (x : Binary64) :
    x = ofFields x.isNegative (x.exponentField * 2 ^ 52 + x.fractionField) := by
  have hlt := x.bits.toNat_lt
  have hexponent : x.exponentField = x.bits.toNat / 2 ^ 52 % 2 ^ 11 := rfl
  have hfraction : x.fractionField = x.bits.toNat % 2 ^ 52 := rfl
  have hnegative : x.isNegative = decide (2 ^ 63 ≤ x.bits.toNat) := rfl
  have hbits : x.bits.toNat
      = (ofFields x.isNegative (x.exponentField * 2 ^ 52 + x.fractionField)).bits.toNat := by
    rw [toNat_bits_ofFields _ (by omega), hnegative]
    -- The three fields fill the bits without overlap, so that arithmetic puts them together.
    split_ifs with hsign
    · have hge := of_decide_eq_true hsign
      omega
    · have hsmall := of_decide_eq_false (Bool.eq_false_of_not_eq_true hsign)
      omega
  cases x
  exact congrArg Binary64.mk (UInt64.toNat_inj.mp hbits)

theorem significand_lt (x : Binary64) : x.significand < 2 ^ 53 := by
  have hfraction := x.fractionField_lt
  have hsignificand : x.significand
      = if x.exponentField = 0 then x.fractionField else 2 ^ 52 + x.fractionField := rfl
  rw [hsignificand]
  split_ifs <;> omega

theorem scale_le (hx : x.isFinite = true) : x.scale ≤ 971 := by
  have hexponent : x.exponentField < 2 ^ 11 := Nat.mod_lt _ (Nat.two_pow_pos 11)
  have hfinite : x.exponentField ≠ 2047 := bne_iff_ne.mp hx
  unfold scale
  omega

theorem magnitude_lt_overflow (hx : x.isFinite = true) : x.magnitude < overflow := by
  have hle : (x.significand : ℚ) ≤ 2 ^ 53 - 1 := by
    have hlt := x.significand_lt
    have hle : (x.significand : ℚ) + 1 ≤ 2 ^ 53 := by exact_mod_cast hlt
    linarith
  rw [overflow_eq]
  calc x.magnitude ≤ (2 ^ 53 - 1) * 2 ^ (971 : Int) := by
        have hplace := scale_le hx
        unfold magnitude
        gcongr
        norm_num
    _ < (2 ^ 53 - 1 / 2) * 2 ^ (971 : Int) := by
      gcongr
      norm_num

/-! ### Products within a limit -/

/-- Up to this number, two steps below the overflow, the product of what is rounded is finite. -/
def safeLimit : ℚ := (2 ^ 53 - 5 / 2) * 2 ^ (971 : Int)

theorem safeLimit_lt_overflow : (1 + unit) * (1 + unit) * safeLimit < overflow := by
  rw [overflow_eq, safeLimit, ← mul_assoc]
  refine mul_lt_mul_of_pos_right ?_ (by positivity)
  norm_num [unit]

theorem safeLimit_lt_two_pow : safeLimit < 2 ^ 1024 := by
  calc safeLimit < 2 ^ 53 * 2 ^ (971 : Int) :=
        mul_lt_mul_of_pos_right (by norm_num) (by positivity)
    _ = 2 ^ ((1024 : Nat) : Int) := by
      rw [show ((1024 : Nat) : Int) = 53 + 971 by norm_num, zpow_add₀ (by norm_num)]
      rfl
    _ = 2 ^ 1024 := zpow_natCast _ _

/-- Within the limit no power of ten is above the largest. -/
theorem exponent_le_of_safe {m e : Nat} (hm : 0 < m) (hle : (m : ℚ) * 10 ^ e ≤ safeLimit) :
    e ≤ 308 := by
  by_contra he
  have hpow : (2 : ℚ) ^ 1024 ≤ 10 ^ 309 := by
    calc (2 : ℚ) ^ 1024 = (2 ^ 93) ^ 11 * 2 := by rw [← pow_mul, ← pow_succ]
      _ ≤ (10 ^ 28) ^ 11 * 10 := by gcongr <;> norm_num
      _ = 10 ^ 309 := by rw [← pow_mul, ← pow_succ]
  have hone : (1 : ℚ) ≤ m := by exact_mod_cast hm
  have hlarge : (10 : ℚ) ^ 309 ≤ m * 10 ^ e := by
    calc (10 : ℚ) ^ 309 ≤ 10 ^ e := pow_le_pow_right₀ (by norm_num) (by omega)
      _ ≤ m * 10 ^ e := le_mul_of_one_le_left (by positivity) hone
  exact absurd (hlarge.trans hle) (not_le.mpr (safeLimit_lt_two_pow.trans_le hpow))

/-- Within the limit the largest power of ten stands for itself. -/
theorem eq_one_of_safe {m : Nat} (hm : 0 < m) (hle : (m : ℚ) * 10 ^ 308 ≤ safeLimit) : m = 1 := by
  by_contra hne
  have htwo : (2 : ℚ) ≤ m := by
    have hge : 2 ≤ m := by omega
    exact_mod_cast hge
  have hpow : (2 : ℚ) ^ 1023 ≤ 10 ^ 308 := by
    calc (2 : ℚ) ^ 1023 = (2 ^ 93) ^ 11 := by rw [← pow_mul]
      _ ≤ (10 ^ 28) ^ 11 := by gcongr; norm_num
      _ = 10 ^ 308 := by rw [← pow_mul]
  have hlarge : (2 : ℚ) ^ 1024 ≤ m * 10 ^ 308 := by
    calc (2 : ℚ) ^ 1024 = 2 * 2 ^ 1023 := pow_succ' 2 1023
      _ ≤ m * 10 ^ 308 := by gcongr
  exact absurd (hlarge.trans hle) (not_le.mpr safeLimit_lt_two_pow)

/-- Digits times a power of ten are finite up to the limit. -/
theorem isFinite_ofInt_mul_tenPow {m e : Nat} (hm : m < UInt64.size) (hpos : 0 < m) (he : e ≤ 308)
    (hle : (m : ℚ) * 10 ^ e ≤ safeLimit) : (ofInt m * ofDecimal false 1 e).isFinite = true := by
  obtain ⟨hx, hmx⟩ := isFinite_ofInt_natCast hm
  rcases Nat.lt_or_eq_of_le he with hlt | rfl
  · obtain ⟨hy, hmy⟩ := isFinite_tenPow (Nat.le_of_lt_succ hlt)
    refine (isFinite_mul_iff hx hy).mpr (lt_of_le_of_lt ?_ safeLimit_lt_overflow)
    have hunit : 0 < unit := by unfold unit; positivity
    have hnonneg : 0 ≤ (ofDecimal false 1 e).magnitude := by unfold magnitude; positivity
    calc (ofInt m).magnitude * (ofDecimal false 1 e).magnitude
        ≤ (1 + unit) * m * ((1 + unit) * 10 ^ e) := by gcongr
      _ = (1 + unit) * (1 + unit) * (m * 10 ^ e) := by ring
      _ ≤ (1 + unit) * (1 + unit) * safeLimit := by gcongr
  · -- The largest power of ten is above the range of the bound; only one fits it, exactly.
    obtain rfl := eq_one_of_safe hpos hle
    have hy : (ofDecimal false 1 308).isFinite = true := by
      rw [isFinite_ofDecimal_iff, Nat.cast_one, one_mul]
      exact ten_pow_lt_overflow
    have hone : (ofInt (1 : Nat)).magnitude = 1 := by
      rw [← abs_value, value_ofInt (by decide), Nat.cast_one, Int.cast_one, abs_one]
    refine (isFinite_mul_iff hx hy).mpr ?_
    rw [hone, one_mul]
    exact magnitude_lt_overflow hy

/-- All doubles but the two largest are within the limit, with half a step to spare. -/
theorem upperEnd_le_safeLimit (hx : x.isFinite = true)
    (hsmall : x.exponentField = 2046 → x.fractionField < 2 ^ 52 - 2) :
    x.upperEnd ≤ safeLimit := by
  have hscale : x.scale = (max x.exponentField 1 : Nat) - 1075 := rfl
  have hlargest := scale_le hx
  unfold upperEnd safeLimit
  -- Below the largest exponent a whole binade is left; at it the fraction must be small enough.
  by_cases htop : x.exponentField = 2046
  · have hle : x.significand + 3 ≤ 2 ^ 53 := by
      have hfraction := hsmall htop
      have hsignificand : x.significand
          = if x.exponentField = 0 then x.fractionField else 2 ^ 52 + x.fractionField := rfl
      rw [hsignificand, if_neg (by omega)]
      omega
    have hle' : (x.significand : ℚ) + 3 ≤ 2 ^ 53 := by exact_mod_cast hle
    have hplace : x.scale = 971 := by omega
    rw [hplace]
    gcongr
    linarith
  · have hle : x.significand + 1 ≤ 2 ^ 53 := x.significand_lt
    have hle' : (x.significand : ℚ) + 1 ≤ 2 ^ 53 := by exact_mod_cast hle
    calc (x.significand + 1 / 2 : ℚ) * 2 ^ x.scale
        ≤ (2 ^ 54 - 5) * 2 ^ (970 : Int) := by
          have hplace : x.scale ≤ 970 := by omega
          gcongr
          · linarith
          · norm_num
      _ = (2 ^ 53 - 5 / 2) * 2 ^ (971 : Int) := by
        rw [show (971 : Int) = 1 + 970 by norm_num, zpow_add₀ (by norm_num)]
        ring

end GraphIndex.Binary64
