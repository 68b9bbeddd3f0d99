import GraphIndex.Number.Binary64
import Mathlib.Algebra.Order.Field.Power
import Mathlib.Data.Rat.Cast.Order
import Mathlib.Tactic.FieldSimp
import Mathlib.Tactic.Linarith
import Mathlib.Tactic.NormNum
import Mathlib.Tactic.Positivity
import Mathlib.Tactic.Ring

/-!
# Errors of rounding

A double as the rational number that it stands for (`magnitude`). `Near x v ε` says that `x` is
finite, not negative and within `ε * v` of `v`. One rounding to the nearest double costs half a unit
in the last of fifty-three places (`near_ofRatio`); integers, products and quotients follow
(`near_ofInt`, `Near.mul`, `Near.div`), as long as no result leaves the range of normal doubles.
-/

namespace GraphIndex.Binary64

/-! ### Values -/

/-- The value of a finite double without its sign. -/
def magnitude (x : Binary64) : ℚ := x.significand * 2 ^ x.scale

/-- A power as a ratio of powers whose exponents are naturals. -/
theorem zpow_eq_div {b : ℚ} (hb : b ≠ 0) (q : Int) : b ^ q = b ^ q.toNat / b ^ (-q).toNat := by
  have hsplit : q = (q.toNat : Int) - ((-q).toNat : Int) := by omega
  conv_lhs => rw [hsplit, zpow_sub₀ hb, zpow_natCast, zpow_natCast]

theorem two_zpow (q : Int) : (2 : ℚ) ^ q = 2 ^ q.toNat / 2 ^ (-q).toNat :=
  zpow_eq_div two_ne_zero q

theorem magnitude_eq_div (x : Binary64) : x.magnitude = x.numerator / x.denominator := by
  unfold magnitude numerator denominator
  rw [two_zpow, Nat.pow_eq, Nat.pow_eq]
  push_cast
  ring

/-- A double whose bits are an exponent and a significand, which may carry into the exponent. -/
theorem magnitude_of_bits {x : Binary64} {k m : Nat} (hbits : x.bits.toNat = k * 2 ^ 52 + m)
    (hm : m ≤ 2 ^ 53) (hk : k < 2045) (hnormal : k ≠ 0 → 2 ^ 52 ≤ m) :
    x.isFinite = true ∧ x.isNegative = false ∧ x.magnitude = m * 2 ^ ((k : Int) - 1074) := by
  have hexponent : x.exponentField = x.bits.toNat / 4503599627370496 % 2048 := rfl
  have hfraction : x.fractionField = x.bits.toNat % 4503599627370496 := rfl
  have hsignificand : x.significand
      = if x.exponentField = 0 then x.fractionField else 4503599627370496 + x.fractionField := rfl
  have hscale : x.scale = (max x.exponentField 1 : Nat) - 1075 := rfl
  have hnegative : x.isNegative = decide (9223372036854775808 ≤ x.bits.toNat) := rfl
  refine ⟨?_, ?_, ?_⟩
  · unfold isFinite
    rw [bne_iff_ne]
    omega
  · rw [hnegative, decide_eq_false_iff_not]
    omega
  · unfold magnitude
    rcases lt_or_ge m 4503599627370496 with hlt | hge
    · -- A small significand stands for itself, at the lowest scale.
      have hzero : k = 0 := by
        by_contra hne
        have hle := hnormal hne
        omega
      have hvalue : x.significand = m := by
        rw [hsignificand, if_pos (by omega)]
        omega
      have hplace : x.scale = (k : Int) - 1074 := by omega
      rw [hvalue, hplace]
    · rcases lt_or_eq_of_le hm with hlt | heq
      · have hvalue : x.significand = m := by
          rw [hsignificand, if_neg (by omega)]
          omega
        have hplace : x.scale = (k : Int) - 1074 := by omega
        rw [hvalue, hplace]
      · -- The significand carries: half of it, at the next scale.
        have hvalue : x.significand = 4503599627370496 := by
          rw [hsignificand, if_neg (by omega)]
          omega
        have hplace : x.scale = ((k : Int) - 1074) + 1 := by omega
        rw [hvalue, hplace, heq, zpow_add_one₀ (by norm_num)]
        push_cast
        ring

/-! ### Rounding -/

theorem roundDiv_near (a : Nat) {b : Nat} (hb : 0 < b) : |(roundDiv a b : ℚ) - a / b| ≤ 1 / 2 := by
  have hdiv : b * (a / b) + a % b = a := Nat.div_add_mod a b
  have hlt : a % b < b := Nat.mod_lt a hb
  -- Twice the distance, cleared of the denominator.
  have hnear : 2 * b * roundDiv a b ≤ 2 * a + b ∧ 2 * a ≤ 2 * b * roundDiv a b + b := by
    have hlow : 2 * b * (a / b) + 2 * (a % b) = 2 * a := by rw [Nat.mul_assoc, ← Nat.mul_add, hdiv]
    have hhigh : 2 * b * (a / b + 1) = 2 * b * (a / b) + 2 * b := by ring
    unfold roundDiv
    dsimp only
    split
    · omega
    · split
      · omega
      · split <;> omega
  have hb' : (0 : ℚ) < b := by exact_mod_cast hb
  obtain ⟨hle, hge⟩ := hnear
  have hle' : 2 * (b : ℚ) * roundDiv a b ≤ 2 * a + b := by exact_mod_cast hle
  have hge' : 2 * (a : ℚ) ≤ 2 * b * roundDiv a b + b := by exact_mod_cast hge
  have hcancel : (a : ℚ) = b * (a / b) := by field_simp
  rw [abs_le]
  constructor
  · by_contra hneg
    nlinarith
  · by_contra hneg
    nlinarith

/-- The quotient that is rounded at a scale. -/
theorem scaled_eq (num den : Nat) (q : Int) :
    ((num * Nat.pow 2 (-q).toNat : Nat) : ℚ) / (den * Nat.pow 2 q.toNat : Nat)
      = num / den / 2 ^ q := by
  rw [two_zpow, Nat.pow_eq, Nat.pow_eq]
  push_cast
  field_simp

theorem roundAt_near (num : Nat) {den : Nat} (hden : 0 < den) (q : Int) :
    |(roundAt num den q : ℚ) * 2 ^ q - num / den| ≤ 2 ^ q / 2 := by
  have hpos : (0 : ℚ) < 2 ^ q := by positivity
  have hdivisor : 0 < den * Nat.pow 2 q.toNat := Nat.mul_pos hden (Nat.two_pow_pos _)
  have hnear := roundDiv_near (num * Nat.pow 2 (-q).toNat) hdivisor
  rw [scaled_eq] at hnear
  have hmul : (roundAt num den q : ℚ) * 2 ^ q - num / den
      = (roundAt num den q - num / den / 2 ^ q) * 2 ^ q := by
    field_simp
  rw [hmul, abs_mul, abs_of_pos hpos]
  have hle := mul_le_mul_of_nonneg_right hnear hpos.le
  unfold roundAt
  linarith

/-! ### Scales -/

section

variable {num den : Nat} (hnum : 0 < num) (hden : 0 < den)

include hnum hden

theorem ratio_bounds : (2 : ℚ) ^ ((num.log2 : Int) - den.log2 - 1) < num / den ∧
    (num : ℚ) / den < 2 ^ ((num.log2 : Int) - den.log2 + 1) := by
  have hnumLe : (2 : ℚ) ^ num.log2 ≤ num := by exact_mod_cast Nat.log2_self_le (by omega)
  have hnumLt : (num : ℚ) < 2 ^ (num.log2 + 1) := by exact_mod_cast Nat.lt_log2_self
  have hdenLe : (2 : ℚ) ^ den.log2 ≤ den := by exact_mod_cast Nat.log2_self_le (by omega)
  have hdenLt : (den : ℚ) < 2 ^ (den.log2 + 1) := by exact_mod_cast Nat.lt_log2_self
  have hpos : (0 : ℚ) < den := by exact_mod_cast hden
  -- A number lies between the powers of two of its length; the lengths subtract.
  constructor
  · rw [lt_div_iff₀ hpos]
    calc (2 : ℚ) ^ ((num.log2 : Int) - den.log2 - 1) * den
        < 2 ^ ((num.log2 : Int) - den.log2 - 1) * 2 ^ (den.log2 + 1) := by gcongr
      _ = 2 ^ num.log2 := by
        rw [← zpow_natCast, ← zpow_natCast, ← zpow_add₀ (by norm_num)]
        congr 1
        push_cast
        ring
      _ ≤ num := hnumLe
  · rw [div_lt_iff₀ hpos]
    calc (num : ℚ) < 2 ^ (num.log2 + 1) := hnumLt
      _ = 2 ^ ((num.log2 : Int) - den.log2 + 1) * 2 ^ den.log2 := by
        rw [← zpow_natCast, ← zpow_natCast, ← zpow_add₀ (by norm_num)]
        congr 1
        push_cast
        ring
      _ ≤ 2 ^ ((num.log2 : Int) - den.log2 + 1) * den := by gcongr

/-- At its scale a ratio that is not too small has a significand of fifty-three bits. -/
theorem scaleFor_bounds (hsmall : (2 : ℚ) ^ (-1022 : Int) ≤ num / den) :
    (-1074 : Int) ≤ scaleFor num den ∧ (2 : ℚ) ^ (scaleFor num den + 52) ≤ num / den ∧
      (num : ℚ) / den < 2 ^ (scaleFor num den + 53) := by
  obtain ⟨hgt, hlt⟩ := ratio_bounds hnum hden
  set q₀ : Int := (num.log2 : Int) - den.log2 - 53 with hq₀
  set wide : Prop := Nat.pow 2 53 ≤ num * Nat.pow 2 (-q₀).toNat / (den * Nat.pow 2 q₀.toNat)
    with hwide
  -- The lengths leave two places open, and the trial division decides between them.
  have hwideIff : wide ↔ (2 : ℚ) ^ (q₀ + 53) ≤ num / den := by
    have hpos : 0 < den * Nat.pow 2 q₀.toNat := Nat.mul_pos hden (Nat.two_pow_pos _)
    have hpos' : (0 : ℚ) < (den * Nat.pow 2 q₀.toNat : Nat) := by exact_mod_cast hpos
    have hpow : (2 : ℚ) ^ (q₀ + 53) = (Nat.pow 2 53 : Nat) * 2 ^ q₀ := by
      rw [zpow_add₀ (by norm_num), Nat.pow_eq]
      push_cast
      ring
    rw [hpow, ← le_div_iff₀ (by positivity), ← scaled_eq, le_div_iff₀ hpos', hwide,
      Nat.le_div_iff_mul_le hpos]
    exact_mod_cast Iff.rfl
  set q : Int := if wide then q₀ + 1 else q₀ with hq
  have hscale : scaleFor num den = max q (-1074) := rfl
  have hbounds : (2 : ℚ) ^ (q + 52) ≤ num / den ∧ (num : ℚ) / den < 2 ^ (q + 53) := by
    by_cases h : wide
    · have hstep : q = q₀ + 1 := if_pos h
      have hupper : q₀ + 1 + 53 = (num.log2 : Int) - den.log2 + 1 := by omega
      have hlower : q₀ + 1 + 52 = q₀ + 53 := by ring
      rw [hstep, hupper, hlower]
      exact ⟨hwideIff.mp h, hlt⟩
    · have hstep : q = q₀ := if_neg h
      have hlower : q₀ + 52 = (num.log2 : Int) - den.log2 - 1 := by omega
      rw [hstep, hlower]
      exact ⟨hgt.le, not_le.mp fun hle => h (hwideIff.mpr hle)⟩
  -- A normal value has its last digit no lower than the lowest place.
  have hle : -1074 ≤ q := by
    by_contra hneg
    have hstep : (2 : ℚ) ^ (q + 53) ≤ 2 ^ (-1022 : Int) := by
      apply zpow_le_zpow_right₀ (by norm_num)
      omega
    linarith [hbounds.2]
  rw [hscale, max_eq_left hle]
  exact ⟨hle, hbounds⟩

end

/-! ### Doubles near to ratios -/

/-- A finite double that is not negative and lies so near to a positive number, relative to it. -/
structure Near (x : Binary64) (v ε : ℚ) : Prop where
  isFinite : x.isFinite = true
  isNegative : x.isNegative = false
  close : |x.magnitude - v| ≤ ε * v

/-- The bound on the relative error of one rounding. -/
def unit : ℚ := 2 ^ (-53 : Int)

/-- The rounded significand has fifty-three bits, or is the next power of two. -/
theorem roundAt_bounds {num den : Nat} (hden : 0 < den) {q : Int}
    (hlower : (2 : ℚ) ^ (q + 52) ≤ num / den) (hupper : (num : ℚ) / den < 2 ^ (q + 53)) :
    2 ^ 52 ≤ roundAt num den q ∧ roundAt num den q ≤ 2 ^ 53 := by
  have hnear := roundAt_near num hden q
  set m := roundAt num den q
  rw [abs_le] at hnear
  have hpos : (0 : ℚ) < 2 ^ q := by positivity
  rw [zpow_add₀ (by norm_num)] at hlower hupper
  norm_num at hlower hupper
  constructor
  · have hlt : ((2 : ℚ) ^ 52) * 2 ^ q < (m + 1) * 2 ^ q := by linarith
    have hlt' : (2 : ℚ) ^ 52 < m + 1 := lt_of_mul_lt_mul_right hlt hpos.le
    have hnat : 2 ^ 52 < m + 1 := by exact_mod_cast hlt'
    omega
  · have hlt : (m : ℚ) * 2 ^ q < (2 ^ 53 + 1) * 2 ^ q := by linarith
    have hlt' : (m : ℚ) < 2 ^ 53 + 1 := lt_of_mul_lt_mul_right hlt hpos.le
    have hnat : m < 2 ^ 53 + 1 := by exact_mod_cast hlt'
    omega

/-- The bits of a rounded ratio that is not too large. -/
theorem bits_ofRatio {num den : Nat} (hnum : 0 < num) (hscale : scaleFor num den ≤ 970)
    (hround : roundAt num den (scaleFor num den) ≤ 2 ^ 53) :
    (ofRatio false num den).bits.toNat
      = (scaleFor num den + 1074).toNat * 2 ^ 52 + roundAt num den (scaleFor num den) := by
  have hfields : ofRatio false num den = ofFields false
      (min ((scaleFor num den + 1074).toNat * Nat.pow 2 52
        + roundAt num den (scaleFor num den)) (2047 * Nat.pow 2 52)) := by
    unfold ofRatio
    rw [if_neg (by omega)]
  rw [hfields]
  generalize scaleFor num den = q at hscale hround
  generalize roundAt num den q = m at hround
  have hbound : (q + 1074).toNat * 4503599627370496 + m ≤ 2047 * 4503599627370496 := by omega
  show (UInt64.ofNat (0 + min ((q + 1074).toNat * 4503599627370496 + m)
    (2047 * 4503599627370496))).toNat = _
  rw [UInt64.toNat_ofNat', Nat.min_eq_left hbound]
  omega

/-- In the range of normal doubles a ratio becomes its rounded significand at its scale. -/
theorem magnitude_ofRatio {num den : Nat} (hnum : 0 < num) (hden : 0 < den)
    (hsmall : (2 : ℚ) ^ (-1022 : Int) ≤ num / den) (hlarge : (num : ℚ) / den < 2 ^ (1023 : Int)) :
    (ofRatio false num den).isFinite = true ∧ (ofRatio false num den).isNegative = false ∧
      (ofRatio false num den).magnitude
        = roundAt num den (scaleFor num den) * 2 ^ scaleFor num den := by
  obtain ⟨hscale, hlower, hupper⟩ := scaleFor_bounds hnum hden hsmall
  obtain ⟨hmge, hmle⟩ := roundAt_bounds hden hlower hupper
  have hexponent : scaleFor num den + 52 < 1023 := by
    have hlt : (2 : ℚ) ^ (scaleFor num den + 52) < 2 ^ (1023 : Int) := lt_of_le_of_lt hlower hlarge
    exact (zpow_lt_zpow_iff_right₀ (by norm_num)).mp hlt
  have hbits := bits_ofRatio hnum (by omega) hmle
  obtain ⟨hfinite, hnegative, hvalue⟩ :=
    magnitude_of_bits hbits hmle (by omega) fun _ => hmge
  have hplace : (((scaleFor num den + 1074).toNat : Nat) : Int) - 1074 = scaleFor num den := by
    omega
  rw [hplace] at hvalue
  exact ⟨hfinite, hnegative, hvalue⟩

/-- **One rounding** in the range of normal doubles moves a ratio by a small part of it only. -/
theorem near_ofRatio {num den : Nat} (hnum : 0 < num) (hden : 0 < den)
    (hsmall : (2 : ℚ) ^ (-1022 : Int) ≤ num / den) (hlarge : (num : ℚ) / den < 2 ^ (1023 : Int)) :
    Near (ofRatio false num den) (num / den) unit := by
  obtain ⟨-, hlower, -⟩ := scaleFor_bounds hnum hden hsmall
  obtain ⟨hfinite, hnegative, hvalue⟩ := magnitude_ofRatio hnum hden hsmall hlarge
  have hnear := roundAt_near num hden (scaleFor num den)
  refine ⟨hfinite, hnegative, ?_⟩
  rw [hvalue]
  -- Half a unit in the last place is a small part of a significand of fifty-three bits.
  have hhalf : (2 : ℚ) ^ scaleFor num den / 2 ≤ unit * (num / den) := by
    have hunitPos : 0 < unit := by unfold unit; positivity
    have hunit : unit * 2 ^ 53 = 1 := by norm_num [unit]
    have hpow : (2 : ℚ) ^ (scaleFor num den + 52) = 2 ^ 52 * 2 ^ scaleFor num den := by
      rw [zpow_add₀ (by norm_num), mul_comm]
      norm_cast
    calc (2 : ℚ) ^ scaleFor num den / 2
        = unit * 2 ^ 53 * (2 ^ scaleFor num den / 2) := by rw [hunit, one_mul]
      _ = unit * 2 ^ (scaleFor num den + 52) := by rw [hpow]; ring
      _ ≤ unit * (num / den) := by gcongr
  exact hnear.trans hhalf

/-! ### Arithmetic -/

section

variable {x y : Binary64} {v w z ε δ : ℚ}

theorem isNaN_of_isFinite (h : x.isFinite = true) : x.isNaN = false := by
  have hne : (x.exponentField == 2047) = false := by
    rw [beq_eq_false_iff_ne]
    exact bne_iff_ne.mp h
  unfold isNaN
  rw [hne, Bool.false_and]

theorem isInfinite_of_isFinite (h : x.isFinite = true) : x.isInfinite = false := by
  have hne : (x.exponentField == 2047) = false := by
    rw [beq_eq_false_iff_ne]
    exact bne_iff_ne.mp h
  unfold isInfinite
  rw [hne, Bool.false_and]

theorem mul_eq_ofRatio (hx : x.isFinite = true) (hy : y.isFinite = true) :
    x * y = ofRatio (x.isNegative != y.isNegative) (x.numerator * y.numerator)
      (x.denominator * y.denominator) := by
  show Binary64.mul x y = _
  unfold Binary64.mul
  simp only [isNaN_of_isFinite hx, isNaN_of_isFinite hy, isInfinite_of_isFinite hx,
    isInfinite_of_isFinite hy, Bool.or_self, Bool.false_eq_true, if_false]

/-- The product of two doubles rounds the product of the ratios that they are. -/
theorem div_eq_mul_magnitude (x y : Binary64) :
    ((x.numerator * y.numerator : Nat) : ℚ) / (x.denominator * y.denominator : Nat)
      = x.magnitude * y.magnitude := by
  rw [magnitude_eq_div, magnitude_eq_div]
  push_cast
  rw [div_mul_div_comm]

theorem Near.magnitude_pos (h : Near x v ε) (hv : 0 < v) (hε : ε ≤ 1 / 2) : 0 < x.magnitude := by
  have hclose := h.close
  rw [abs_le] at hclose
  nlinarith

theorem numerator_pos (h : 0 < x.magnitude) : 0 < x.numerator := by
  have hden : (0 : ℚ) < x.denominator := by exact_mod_cast x.denominator_pos
  rw [magnitude_eq_div, lt_div_iff₀ hden, zero_mul] at h
  exact_mod_cast h

/-- What is near to a number is near to another one that is near to it. -/
theorem Near.trans (h : Near x z unit) (hz : |z - v| ≤ ε * v) (hε : ε ≤ 1) (hv : 0 < v) :
    Near x v (ε + 2 * unit) := by
  refine ⟨h.isFinite, h.isNegative, ?_⟩
  have hunit : 0 < unit := by unfold unit; positivity
  have hzle : z ≤ 2 * v := by
    have hupper := (abs_le.mp hz).2
    nlinarith
  calc |x.magnitude - v| ≤ |x.magnitude - z| + |z - v| := abs_sub_le _ _ _
    _ ≤ unit * z + ε * v := add_le_add h.close hz
    _ ≤ (ε + 2 * unit) * v := by nlinarith

/-- The relative error of a product. -/
theorem abs_mul_sub_le {a b : ℚ} (ha : |a - v| ≤ ε * v) (hb : |b - w| ≤ δ * w) (hv : 0 < v)
    (hw : 0 < w) (hε : 0 ≤ ε) (hδ : 0 ≤ δ) (hδ' : δ ≤ 1) :
    |a * b - v * w| ≤ 2 * (ε + δ) * (v * w) := by
  have hble : |b| ≤ 2 * w := by
    have hbounds := abs_le.mp hb
    rw [abs_le]
    constructor <;> nlinarith
  have hsplit : a * b - v * w = (a - v) * b + v * (b - w) := by ring
  calc |a * b - v * w| ≤ |a - v| * |b| + v * |b - w| := by
        rw [hsplit]
        refine (abs_add_le _ _).trans ?_
        rw [abs_mul, abs_mul, abs_of_pos hv]
    _ ≤ ε * v * (2 * w) + v * (δ * w) := by gcongr
    _ ≤ 2 * (ε + δ) * (v * w) := by nlinarith [mul_pos hv hw, mul_nonneg hδ (mul_pos hv hw).le]

/-- The relative error of a quotient. -/
theorem abs_div_sub_le {a b : ℚ} (ha : |a - v| ≤ ε * v) (hb : |b - w| ≤ δ * w) (hv : 0 < v)
    (hw : 0 < w) (hδ : δ ≤ 1 / 2) : |a / b - v / w| ≤ 2 * (ε + δ) * (v / w) := by
  have hbge : w / 2 ≤ b := by
    have hbounds := abs_le.mp hb
    nlinarith
  have hbpos : 0 < b := by linarith
  -- Over one denominator the errors add, and the divisor is at least half of what it stands for.
  have hsplit : a / b - v / w = ((a - v) * w - v * (b - w)) / (b * w) := by
    field_simp
    ring
  have hnum : |(a - v) * w - v * (b - w)| ≤ (ε + δ) * v * w := by
    calc |(a - v) * w - v * (b - w)| ≤ |a - v| * w + v * |b - w| := by
          refine (abs_sub _ _).trans ?_
          rw [abs_mul, abs_mul, abs_of_pos hv, abs_of_pos hw]
      _ ≤ ε * v * w + v * (δ * w) := by gcongr
      _ = (ε + δ) * v * w := by ring
  rw [hsplit, abs_div, abs_of_pos (mul_pos hbpos hw), div_le_iff₀ (mul_pos hbpos hw)]
  have hsum : 0 ≤ (ε + δ) * v * w := (abs_nonneg _).trans hnum
  calc |(a - v) * w - v * (b - w)| ≤ (ε + δ) * v * w := hnum
    _ ≤ 2 * (ε + δ) * (v / w) * (b * w) := by
      have hcancel : 2 * (ε + δ) * (v / w) * (b * w) = (ε + δ) * v * (2 * b) := by
        field_simp
      have hpart : 0 ≤ (ε + δ) * v := nonneg_of_mul_nonneg_left hsum hw
      rw [hcancel]
      exact mul_le_mul_of_nonneg_left (by linarith) hpart

/-- The range in which results are normal doubles. -/
def InRange (v : ℚ) : Prop := 2 ^ (-1021 : Int) ≤ v ∧ v ≤ 2 ^ (1021 : Int)

theorem InRange.of_near (hrange : InRange v) (hz : |z - v| ≤ ε * v) (hε : ε ≤ 1 / 2) :
    2 ^ (-1022 : Int) ≤ z ∧ z < 2 ^ (1023 : Int) := by
  obtain ⟨hlower, hupper⟩ := hrange
  obtain ⟨hge, hle⟩ := abs_le.mp hz
  have hpos : (0 : ℚ) < 2 ^ (-1021 : Int) := by positivity
  have hhalf : (2 : ℚ) ^ (-1022 : Int) = 2 ^ (-1021 : Int) / 2 := by
    rw [show (-1022 : Int) = -1021 - 1 by norm_num, zpow_sub_one₀ (by norm_num)]
    ring
  have hdouble : (2 : ℚ) ^ (1023 : Int) = 2 ^ (1021 : Int) * 4 := by
    rw [show (1023 : Int) = 1021 + 2 by norm_num, zpow_add₀ (by norm_num)]
    norm_num
  have hlargePos : (0 : ℚ) < 2 ^ (1021 : Int) := by positivity
  have hpart : ε * v ≤ 1 / 2 * v := mul_le_mul_of_nonneg_right hε (by linarith)
  constructor
  · rw [hhalf]
    linarith
  · rw [hdouble]
    generalize (2 : ℚ) ^ (1021 : Int) = top at hupper hlargePos
    linarith

theorem Near.mul (hx : Near x v ε) (hy : Near y w δ) (hv : 0 < v) (hw : 0 < w) (hε : 0 ≤ ε)
    (hε' : ε ≤ 1 / 8) (hδ : 0 ≤ δ) (hδ' : δ ≤ 1 / 8) (hrange : InRange (v * w)) :
    Near (x * y) (v * w) (2 * (ε + δ) + 2 * unit) := by
  have hxpos := hx.magnitude_pos hv (by linarith)
  have hypos := hy.magnitude_pos hw (by linarith)
  have herror := abs_mul_sub_le hx.close hy.close hv hw hε hδ (by linarith)
  have hvw : 0 < v * w := mul_pos hv hw
  have hvalue := div_eq_mul_magnitude x y
  have hmul : x * y
      = ofRatio false (x.numerator * y.numerator) (x.denominator * y.denominator) := by
    rw [mul_eq_ofRatio hx.isFinite hy.isFinite, hx.isNegative, hy.isNegative, bne_self_eq_false]
  obtain ⟨hsmall, hlarge⟩ := hrange.of_near herror (by linarith)
  -- The product is rounded once more; that error comes on top of those of the factors.
  have hround : Near (x * y) (x.magnitude * y.magnitude) unit := by
    rw [← hvalue] at hsmall hlarge ⊢
    rw [hmul]
    apply near_ofRatio _ _ hsmall hlarge
    · exact Nat.mul_pos (numerator_pos hxpos) (numerator_pos hypos)
    · exact Nat.mul_pos x.denominator_pos y.denominator_pos
  exact hround.trans herror (by linarith) hvw

theorem significand_ne_zero (h : 0 < x.magnitude) : x.significand ≠ 0 := by
  intro hzero
  unfold magnitude at h
  rw [hzero] at h
  simp at h

theorem Near.div (hx : Near x v ε) (hy : Near y w δ) (hv : 0 < v) (hw : 0 < w)
    (hε' : ε ≤ 1 / 8) (hδ' : δ ≤ 1 / 8) (hrange : InRange (v / w)) :
    Near (x / y) (v / w) (2 * (ε + δ) + 2 * unit) := by
  have hxpos := hx.magnitude_pos hv (by linarith)
  have hypos := hy.magnitude_pos hw (by linarith)
  have herror := abs_div_sub_le hx.close hy.close hv hw (by linarith)
  have hvw : 0 < v / w := div_pos hv hw
  have hvalue : ((x.numerator * y.denominator : Nat) : ℚ) / (x.denominator * y.numerator : Nat)
      = x.magnitude / y.magnitude := by
    rw [magnitude_eq_div, magnitude_eq_div]
    push_cast
    rw [div_div_div_eq]
  have hdiv : x / y
      = ofRatio false (x.numerator * y.denominator) (x.denominator * y.numerator) := by
    show Binary64.div x y = _
    unfold Binary64.div
    rw [isNaN_of_isFinite hx.isFinite, isNaN_of_isFinite hy.isFinite,
      isInfinite_of_isFinite hx.isFinite, isInfinite_of_isFinite hy.isFinite, hx.isNegative,
      hy.isNegative]
    simp only [Bool.or_self, Bool.and_self, Bool.false_eq_true, if_false, bne_self_eq_false,
      significand_ne_zero hypos]
  obtain ⟨hsmall, hlarge⟩ := hrange.of_near herror (by linarith)
  have hround : Near (x / y) (x.magnitude / y.magnitude) unit := by
    rw [← hvalue] at hsmall hlarge ⊢
    rw [hdiv]
    apply near_ofRatio _ _ hsmall hlarge
    · exact Nat.mul_pos (numerator_pos hxpos) y.denominator_pos
    · exact Nat.mul_pos x.denominator_pos (numerator_pos hypos)
  exact hround.trans herror (by linarith) hvw

/-- A positive integer of a size that occurs is near to its double. -/
theorem near_ofInt {i : Int} (hpos : 0 < i) (hlarge : i < 2 ^ 63) : Near (ofInt i) i unit := by
  have hratio : ofInt i = ofRatio false i.natAbs 1 := by
    unfold ofInt ofSignedRatio
    rw [decide_eq_false (by omega)]
  have hvalue : ((i.natAbs : Nat) : ℚ) / (1 : Nat) = i := by
    rw [Nat.cast_one, div_one, Nat.cast_natAbs, abs_of_pos hpos]
  have hone : (1 : ℚ) ≤ i := by exact_mod_cast hpos
  have hle : (i : ℚ) < 2 ^ 63 := by exact_mod_cast hlarge
  have hnear : Near (ofRatio false i.natAbs 1) ((i.natAbs : Nat) / (1 : Nat)) unit := by
    apply near_ofRatio
    · omega
    · omega
    · rw [hvalue]
      refine le_trans ?_ hone
      exact zpow_le_one_of_nonpos₀ (by norm_num) (by norm_num)
    · rw [hvalue]
      refine hle.trans ?_
      have hpow : (2 : ℚ) ^ 63 = 2 ^ (63 : Int) := by norm_cast
      rw [hpow]
      exact zpow_lt_zpow_right₀ (by norm_num) (by norm_num)
  rw [hvalue] at hnear
  rw [hratio]
  exact hnear

end

end GraphIndex.Binary64
