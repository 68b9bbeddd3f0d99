import GraphIndex.Proofs.Number.Rounding

/-!
# Sums and products that doubles hold

A double with its sign as the rational number that it stands for (`value`). `Rounds x v` says that
`x` is finite, lies within half a unit in the last place of `v`, and is `v` if fifty-three binary
places suffice for it. Integers, sums and products of doubles are rounded once (`rounds_ofInt`,
`rounds_add`, `rounds_mul`); comparisons with integers and the integer part are those of the value.
-/

namespace GraphIndex.Binary64

variable {x y : Binary64} {v w : ℚ} {num den : Nat}

/-! ### Values with a sign -/

/-- A number with a sign in front. -/
def signed (negative : Bool) (v : ℚ) : ℚ := if negative then -v else v

/-- The value of a finite double. -/
def value (x : Binary64) : ℚ := signed x.isNegative x.magnitude

theorem abs_signed (negative : Bool) (v : ℚ) : |signed negative v| = |v| := by
  cases negative
  · rfl
  · exact abs_neg v

theorem signed_sub (negative : Bool) (v w : ℚ) :
    signed negative v - signed negative w = signed negative (v - w) := by
  cases negative
  · rfl
  · show -v - -w = -(v - w)
    ring

theorem signed_mul (b c : Bool) (v w : ℚ) :
    signed b v * signed c w = signed (b != c) (v * w) := by
  cases b <;> cases c <;> simp [signed]

theorem value_eq_div (x : Binary64) : x.value = x.signedNumerator / x.denominator := by
  unfold value signed signedNumerator
  rw [magnitude_eq_div]
  split
  · push_cast
    ring
  · rfl

theorem denominator_cast_pos (x : Binary64) : (0 : ℚ) < x.denominator := by
  exact_mod_cast x.denominator_pos

theorem signedNumerator_eq (x : Binary64) : (x.signedNumerator : ℚ) = x.value * x.denominator := by
  rw [value_eq_div, div_mul_cancel₀ _ x.denominator_cast_pos.ne']

/-! ### The sign of a ratio -/

theorem toNat_bits_ofFields (negative : Bool) {m : Nat} (hm : m < 2 ^ 63) :
    (ofFields negative m).bits.toNat = (if negative then 2 ^ 63 else 0) + m := by
  show (UInt64.ofNat ((if negative then Nat.pow 2 63 else 0) + m)).toNat = _
  rw [UInt64.toNat_ofNat']
  cases negative
  · exact Nat.mod_eq_of_lt (by simp; omega)
  · exact Nat.mod_eq_of_lt (by simp; omega)

/-- The sign bit changes nothing else. -/
theorem ofFields_spec (negative : Bool) {m : Nat} (hm : m < 2 ^ 63) :
    (ofFields negative m).isNegative = negative ∧
      (ofFields negative m).isFinite = (ofFields false m).isFinite ∧
      (ofFields negative m).magnitude = (ofFields false m).magnitude := by
  have hbits := toNat_bits_ofFields negative hm
  have hbits' := toNat_bits_ofFields false hm
  -- The sign is one bit above the fields, so that the fields do not see it.
  have hexponent : (ofFields negative m).exponentField = (ofFields false m).exponentField := by
    show (ofFields negative m).bits.toNat / 2 ^ 52 % 2 ^ 11
      = (ofFields false m).bits.toNat / 2 ^ 52 % 2 ^ 11
    rw [hbits, hbits']
    simp only [Bool.false_eq_true, if_false]
    split <;> omega
  have hfraction : (ofFields negative m).fractionField = (ofFields false m).fractionField := by
    show (ofFields negative m).bits.toNat % 2 ^ 52 = (ofFields false m).bits.toNat % 2 ^ 52
    rw [hbits, hbits']
    simp only [Bool.false_eq_true, if_false]
    split <;> omega
  refine ⟨?_, ?_, ?_⟩
  · show decide (2 ^ 63 ≤ (ofFields negative m).bits.toNat) = negative
    rw [hbits]
    cases negative
    · exact decide_eq_false (by simp; omega)
    · exact decide_eq_true (by simp)
  · unfold isFinite
    rw [hexponent]
  · unfold magnitude significand scale
    rw [hexponent, hfraction]

theorem ofRatio_spec (negative : Bool) (num den : Nat) :
    (ofRatio negative num den).isNegative = negative ∧
      (ofRatio negative num den).isFinite = (ofRatio false num den).isFinite ∧
      (ofRatio negative num den).magnitude = (ofRatio false num den).magnitude := by
  unfold ofRatio zero
  split
  · exact ofFields_spec negative (by decide)
  · refine ofFields_spec negative (lt_of_le_of_lt (Nat.min_le_right _ _) (by decide))

/-! ### Exact ratios -/

/-- Whether fifty-three binary places suffice for a number, at most one of them behind the point. -/
def IsShort (v : ℚ) : Prop := ∃ k : Nat, k < 2 ^ 53 ∧ |v| * 2 = k

theorem roundDiv_mul (j : Nat) {b : Nat} (hb : 0 < b) : roundDiv (j * b) b = j := by
  unfold roundDiv
  simp only [Nat.mul_div_cancel j hb, Nat.mul_mod_left]
  exact if_pos (by omega)

/-- The last place of a short number's significand lies behind the point. -/
theorem scale_neg_of_isShort {q : Int} (hlower : (2 : ℚ) ^ (q + 52) ≤ v) (hshort : IsShort v) :
    q < 0 := by
  obtain ⟨k, hk, hshort⟩ := hshort
  have hpos : (0 : ℚ) < v := lt_of_lt_of_le (by positivity) hlower
  rw [abs_of_pos hpos] at hshort
  have hk' : (k : ℚ) < 2 ^ (53 : Int) := by exact_mod_cast hk
  have hstep : (2 : ℚ) ^ (q + 53) = 2 ^ (q + 52) * 2 := by
    rw [show q + 53 = q + 52 + 1 by ring, zpow_add_one₀ (by norm_num)]
  have hlt : (2 : ℚ) ^ (q + 53) < 2 ^ (53 : Int) := by
    rw [hstep]
    linarith
  have hle := (zpow_lt_zpow_iff_right₀ (by norm_num : (1 : ℚ) < 2)).mp hlt
  omega

/-- In units of such a last place a short number is a whole one. -/
theorem exists_mul_zpow_of_isShort {q : Int} (hq : q < 0) (hpos : 0 ≤ v) (hshort : IsShort v) :
    ∃ j : Nat, v * 2 ^ (-q) = j := by
  obtain ⟨k, -, hshort⟩ := hshort
  rw [abs_of_nonneg hpos] at hshort
  have hfactor : (2 : ℚ) ^ (-q) = 2 * 2 ^ (-q - 1).toNat := by
    rw [← zpow_natCast, Int.toNat_of_nonneg (by omega), ← zpow_one_add₀ (by norm_num)]
    congr 1
    ring
  refine ⟨k * 2 ^ (-q - 1).toNat, ?_⟩
  rw [hfactor, ← mul_assoc, hshort]
  push_cast
  rfl

/-- A short ratio is held exactly. -/
theorem magnitude_ofRatio_of_isShort (hnum : 0 < num) (hden : 0 < den)
    (hsmall : (2 : ℚ) ^ (-1022 : Int) ≤ num / den) (hlarge : (num : ℚ) / den < 2 ^ (1023 : Int))
    (hshort : IsShort (num / den)) : (ofRatio false num den).magnitude = num / den := by
  obtain ⟨-, hlower, -⟩ := scaleFor_bounds hnum hden hsmall
  obtain ⟨-, -, hvalue⟩ := magnitude_ofRatio hnum hden hsmall hlarge
  rw [hvalue]
  unfold roundAt
  generalize scaleFor num den = q at hlower
  obtain ⟨j, hj⟩ := exists_mul_zpow_of_isShort (scale_neg_of_isShort hlower hshort) (by positivity)
    hshort
  have hdivisor : 0 < den * Nat.pow 2 q.toNat := Nat.mul_pos hden (Nat.two_pow_pos _)
  have hdivisor' : ((den * Nat.pow 2 q.toNat : Nat) : ℚ) ≠ 0 := by exact_mod_cast hdivisor.ne'
  -- A short value divided by its place is a whole number, which rounding keeps.
  have hscaled := scaled_eq num den q
  rw [div_eq_iff hdivisor', div_eq_mul_inv (_ / _), ← zpow_neg, hj] at hscaled
  have hexact : num * Nat.pow 2 (-q).toNat = j * (den * Nat.pow 2 q.toNat) := by
    exact_mod_cast hscaled
  have hcancel : (2 : ℚ) ^ (-q) * 2 ^ q = 1 := by
    rw [← zpow_add₀ (by norm_num), neg_add_cancel, zpow_zero]
  rw [hexact, roundDiv_mul _ hdivisor, ← hj, mul_assoc, hcancel, mul_one]

theorem isShort_intCast {i : Int} (h : i.natAbs < 2 ^ 52) : IsShort i := by
  refine ⟨2 * i.natAbs, by omega, ?_⟩
  push_cast
  rw [Nat.cast_natAbs, Int.cast_abs]
  ring

/-! ### One rounding -/

/-- Whether a double is a number after one rounding. -/
structure Rounds (x : Binary64) (v : ℚ) : Prop where
  isFinite : x.isFinite = true
  close : |x.value - v| ≤ unit * |v|
  exact : IsShort v → x.value = v

/-- Zero, and the numbers in the range of normal doubles. -/
def InNormalRange (v : ℚ) : Prop :=
  v = 0 ∨ (2 : ℚ) ^ (-1022 : Int) ≤ |v| ∧ |v| < 2 ^ (1023 : Int)

theorem rounds_ofRatio (negative : Bool) (hden : 0 < den)
    (hrange : InNormalRange ((num : ℚ) / den)) :
    Rounds (ofRatio negative num den) (signed negative (num / den)) := by
  obtain ⟨hnegative, hfinite, hmagnitude⟩ := ofRatio_spec negative num den
  have hvalue : (ofRatio negative num den).value
      = signed negative (ofRatio false num den).magnitude := by
    unfold value
    rw [hnegative, hmagnitude]
  have hpos : (0 : ℚ) ≤ num / den := by positivity
  rcases Nat.eq_zero_or_pos num with rfl | hnum
  · have hzero : (ofRatio false 0 den).magnitude = ((0 : Nat) : ℚ) / den := by
      rw [Nat.cast_zero, zero_div]
      show ((zero false).significand : ℚ) * _ = 0
      rw [show (zero false).significand = 0 by decide, Nat.cast_zero, zero_mul]
    have hexact := hvalue.trans (congrArg (signed negative) hzero)
    have hzeroFinite : (zero false).isFinite = true := by decide
    refine ⟨hfinite.trans hzeroFinite, ?_, fun _ => hexact⟩
    rw [hexact, sub_self, abs_zero]
    exact mul_nonneg (by unfold unit; positivity) (abs_nonneg _)
  · have hvpos : (0 : ℚ) < num / den := by positivity
    unfold InNormalRange at hrange
    rw [abs_of_nonneg hpos] at hrange
    obtain ⟨hsmall, hlarge⟩ := hrange.resolve_left hvpos.ne'
    have hnear := near_ofRatio hnum hden hsmall hlarge
    refine ⟨hfinite.trans hnear.isFinite, ?_, fun hshort => ?_⟩
    · rw [hvalue, signed_sub, abs_signed, abs_signed, abs_of_nonneg hpos]
      exact hnear.close
    · have hshort' : IsShort (num / den) := by
        unfold IsShort at hshort ⊢
        rwa [abs_signed] at hshort
      rw [hvalue, magnitude_ofRatio_of_isShort hnum hden hsmall hlarge hshort']

/-- Rounding multiplies a number by a factor near to one. -/
theorem Rounds.exists_factor (h : Rounds x v) :
    ∃ c : ℚ, 99 / 100 ≤ c ∧ c ≤ 101 / 100 ∧ x.value = c * v := by
  have hunit : unit ≤ 1 / 100 := by norm_num [unit]
  have hclose := h.close.trans (mul_le_mul_of_nonneg_right hunit (abs_nonneg v))
  rcases eq_or_ne v 0 with rfl | hv
  · rw [abs_zero, mul_zero, sub_zero] at hclose
    exact ⟨1, by norm_num, by norm_num, by rw [mul_zero, abs_nonpos_iff.mp hclose]⟩
  · have hfactor : |x.value / v - 1| ≤ 1 / 100 := by
      rwa [div_sub_one hv, abs_div, div_le_iff₀ (abs_pos.mpr hv)]
    rw [abs_le] at hfactor
    exact ⟨x.value / v, by linarith, by linarith, (div_mul_cancel₀ _ hv).symm⟩

theorem rounds_ofSignedRatio {num : Int} (hden : 0 < den)
    (hrange : InNormalRange ((num : ℚ) / den)) :
    Rounds (ofSignedRatio num den) (num / den) := by
  -- The numerator is split into its sign and its size, as the division takes it.
  have hvalue : signed (decide (num < 0)) ((num.natAbs : ℚ) / den) = num / den := by
    rw [Nat.cast_natAbs]
    by_cases hneg : num < 0
    · rw [decide_eq_true hneg, abs_of_neg hneg]
      show -(((-num : Int) : ℚ) / den) = _
      push_cast
      ring
    · rw [decide_eq_false hneg, abs_of_nonneg (not_lt.mp hneg)]
      rfl
  have habs : |(num.natAbs : ℚ) / den| = |(num : ℚ) / den| := by
    rw [← hvalue, abs_signed]
  have hrange' : InNormalRange ((num.natAbs : ℚ) / den) := by
    unfold InNormalRange at hrange ⊢
    rwa [habs, ← abs_eq_zero, habs, abs_eq_zero]
  have hrounds := rounds_ofRatio (decide (num < 0)) hden hrange'
  rwa [hvalue] at hrounds

/-! ### Arithmetic -/

theorem inNormalRange_of_bounds (hlower : v = 0 ∨ 1 / 2 ≤ |v|) (hupper : |v| < 2 ^ 200) :
    InNormalRange v := by
  rcases hlower with hzero | hlower
  · exact Or.inl hzero
  · refine Or.inr ⟨le_trans ?_ hlower, lt_of_lt_of_le hupper ?_⟩
    · have hhalf : (1 : ℚ) / 2 = 2 ^ (-1 : Int) := by norm_num
      rw [hhalf]
      exact zpow_le_zpow_right₀ (by norm_num) (by norm_num)
    · have hpow : (2 : ℚ) ^ 200 = 2 ^ (200 : Int) := by norm_cast
      rw [hpow]
      exact zpow_le_zpow_right₀ (by norm_num) (by norm_num)

theorem inNormalRange_intCast {i : Int} (hi : i.natAbs ≤ 2 ^ 63) : InNormalRange i := by
  apply inNormalRange_of_bounds
  · rcases eq_or_ne i 0 with rfl | hne
    · exact Or.inl Int.cast_zero
    · have hone : (1 : ℚ) ≤ |(i : ℚ)| := by exact_mod_cast Int.one_le_abs hne
      exact Or.inr (by linarith)
  · have hle : ((i.natAbs : Nat) : ℚ) ≤ 2 ^ 63 := by exact_mod_cast hi
    rw [Nat.cast_natAbs, Int.cast_abs] at hle
    exact lt_of_le_of_lt hle (by norm_num)

/-- An integer of sixty-four bits is rounded to a double. -/
theorem rounds_ofInt {i : Int} (hi : i.natAbs ≤ 2 ^ 63) : Rounds (ofInt i) i := by
  have hvalue : (i : ℚ) / ((1 : Nat) : ℚ) = i := by rw [Nat.cast_one, div_one]
  have hrange : InNormalRange ((i : ℚ) / ((1 : Nat) : ℚ)) := by
    rw [hvalue]
    exact inNormalRange_intCast hi
  have hrounds : Rounds (ofSignedRatio i 1) _ := rounds_ofSignedRatio Nat.one_pos hrange
  rwa [hvalue] at hrounds

/-- Small integers are held exactly. -/
theorem value_ofInt {i : Int} (hi : i.natAbs < 2 ^ 52) : (ofInt i).value = i :=
  (rounds_ofInt (by omega)).exact (isShort_intCast hi)

theorem rounds_mul (hx : x.isFinite = true) (hy : y.isFinite = true)
    (hrange : InNormalRange (x.value * y.value)) : Rounds (x * y) (x.value * y.value) := by
  have hvalue := div_eq_mul_magnitude x y
  have hsigned : x.value * y.value
      = signed (x.isNegative != y.isNegative) (x.magnitude * y.magnitude) := signed_mul _ _ _ _
  have hrange' : InNormalRange (x.magnitude * y.magnitude) := by
    unfold InNormalRange at hrange ⊢
    rwa [← abs_eq_zero, hsigned, abs_signed, abs_eq_zero] at hrange
  rw [hsigned, mul_eq_ofRatio hx hy, ← hvalue]
  exact rounds_ofRatio _ (Nat.mul_pos x.denominator_pos y.denominator_pos) (by rwa [hvalue])

theorem rounds_add (hx : x.isFinite = true) (hy : y.isFinite = true)
    (hrange : InNormalRange (x.value + y.value)) : Rounds (x + y) (x.value + y.value) := by
  set num : Int := x.signedNumerator * y.denominator + y.signedNumerator * x.denominator with hnum
  have hden : 0 < x.denominator * y.denominator := Nat.mul_pos x.denominator_pos y.denominator_pos
  have hvalue : (num : ℚ) / (x.denominator * y.denominator : Nat) = x.value + y.value := by
    have hx' := x.denominator_cast_pos.ne'
    have hy' := y.denominator_cast_pos.ne'
    rw [value_eq_div, value_eq_div, hnum]
    push_cast
    field_simp
  have hadd : x + y = if num = 0 then zero (x.isNegative && y.isNegative)
      else ofSignedRatio num (x.denominator * y.denominator) := by
    show Binary64.add x y = _
    unfold Binary64.add
    simp only [isNaN_of_isFinite hx, isNaN_of_isFinite hy, isInfinite_of_isFinite hx,
      isInfinite_of_isFinite hy, Bool.or_self, Bool.false_eq_true, if_false, hnum]
  rw [hadd, ← hvalue]
  split
  · next hzero =>
    -- A sum of zero keeps a sign that its value does not show.
    have hsum : Rounds (ofRatio (x.isNegative && y.isNegative) 0 _) _ :=
      rounds_ofRatio _ hden (Or.inl (by simp))
    rw [hzero]
    have hsigned : signed (x.isNegative && y.isNegative)
        (((0 : Nat) : ℚ) / (x.denominator * y.denominator : Nat))
        = ((0 : Int) : ℚ) / (x.denominator * y.denominator : Nat) := by
      simp [signed]
    rw [hsigned] at hsum
    exact hsum
  · exact rounds_ofSignedRatio hden (by rwa [hvalue])

/-! ### Comparisons and integer parts -/

theorem compareInt?_of_isFinite (hx : x.isFinite = true) (i : Int) :
    compareInt? i x = some (compare (i * x.denominator) x.signedNumerator) := by
  unfold compareInt?
  simp only [isNaN_of_isFinite hx, isInfinite_of_isFinite hx, Bool.false_eq_true, if_false]

/-- A finite double lies below an integer if its value does. -/
theorem compareInt?_eq_gt_iff (hx : x.isFinite = true) (i : Int) :
    compareInt? i x = some .gt ↔ x.value < i := by
  rw [compareInt?_of_isFinite hx, Option.some.injEq, compare_gt_iff_gt,
    ← Int.cast_lt (R := ℚ), signedNumerator_eq]
  push_cast
  exact mul_lt_mul_iff_left₀ x.denominator_cast_pos

theorem truncate_eq {k : Int} (hk : 0 ≤ k) (hle : (k : ℚ) ≤ x.value) (hlt : x.value < k + 1) :
    x.truncate = k := by
  have hden := x.denominator_cast_pos
  rw [value_eq_div] at hle hlt
  rw [le_div_iff₀ hden] at hle
  rw [div_lt_iff₀ hden] at hlt
  have hle' : k * x.denominator ≤ x.signedNumerator := by exact_mod_cast hle
  have hlt' : x.signedNumerator < (k + 1) * x.denominator := by exact_mod_cast hlt
  rw [add_one_mul] at hlt'
  have hpos : (0 : Int) < x.denominator := by exact_mod_cast x.denominator_pos
  unfold truncate
  rw [Int.tdiv_eq_ediv_of_nonneg (le_trans (mul_nonneg hk hpos.le) hle')]
  exact (Int.ediv_eq_iff_of_pos hpos).mpr ⟨hle', hlt'⟩

end GraphIndex.Binary64
