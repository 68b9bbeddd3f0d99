import GraphIndex.Number.Shortest
import GraphIndex.Proofs.Number.Rounding
import Mathlib.Data.Nat.Cast.Order.Field

/-!
# The size of the shortest decimal

A decimal that rounds to a double is at most half a step above it (`le_of_roundsTo`), and where no
place gives such a decimal the digits of the double itself are cut off. So whatever digits are shown
for a double, they are no larger than that (`value_shortest_le`).
-/

namespace GraphIndex.Binary64

variable {x : Binary64} {digits : Nat} {place : Int}

/-- The number that a decimal is. -/
def Decimal.value (d : Decimal) : ℚ := d.digits * 10 ^ d.exponent

/-- The leading digits of a decimal denote no more than all of it. -/
theorem Decimal.mul_pow_le_value (d : Decimal) {n k : Nat} (h : n * 10 ^ k ≤ d.digits)
    (hplace : 0 ≤ d.exponent + k) : (n : ℚ) * 10 ^ (d.exponent + k).toNat ≤ d.value := by
  have h' : (n : ℚ) * 10 ^ k ≤ d.digits := by exact_mod_cast h
  calc (n : ℚ) * 10 ^ (d.exponent + k).toNat
      = n * 10 ^ k * 10 ^ d.exponent := by
        rw [← zpow_natCast, Int.toNat_of_nonneg hplace, zpow_add₀ (by norm_num), zpow_natCast]
        ring
    _ ≤ d.digits * 10 ^ d.exponent := by gcongr

/-- The number half a step above a finite double, without its sign. -/
def upperEnd (x : Binary64) : ℚ := (x.significand + 1 / 2) * 2 ^ x.scale

theorem magnitude_le_upperEnd (x : Binary64) : x.magnitude ≤ x.upperEnd := by
  unfold magnitude upperEnd
  gcongr
  exact le_add_of_nonneg_right (by norm_num)

theorem floorAt_mul_le (num : Nat) {den : Nat} (hden : 0 < den) (place : Int) :
    (floorAt num den place : ℚ) * 10 ^ place ≤ num / den := by
  have hdivisor : (0 : ℚ) < den * 10 ^ place.toNat := by positivity
  have hfloor : (floorAt num den place : ℚ)
      ≤ ((num * 10 ^ (-place).toNat : Nat) : ℚ) / (den * 10 ^ place.toNat : Nat) := Nat.cast_div_le
  push_cast at hfloor
  calc (floorAt num den place : ℚ) * 10 ^ place
      ≤ num * 10 ^ (-place).toNat / (den * 10 ^ place.toNat) * 10 ^ place := by gcongr
    _ = num / den := by
      rw [zpow_eq_div (by norm_num) place]
      field_simp

/-- A decimal that rounds to a double lies in the interval around it. -/
theorem le_of_roundsTo (h : x.roundsTo digits place = true) :
    (digits : ℚ) * 10 ^ place ≤ x.upperEnd := by
  have hle : 4 * digits * 10 ^ place.toNat * 2 ^ (-x.scale).toNat
      ≤ (4 * x.significand + 2) * (10 ^ (-place).toNat * 2 ^ x.scale.toNat) := by
    have hunit : 10 ^ (-place).toNat * 2 ^ (-x.scale).toNat / 2 ^ (-x.scale).toNat
        = 10 ^ (-place).toNat := Nat.mul_div_cancel _ (Nat.two_pow_pos _)
    unfold roundsTo at h
    simp only [Nat.pow_eq, hunit] at h
    split at h
    · exact (of_decide_eq_true h).2
    · exact (of_decide_eq_true h).2.le
  have hle' : 4 * (digits : ℚ) * 10 ^ place.toNat * 2 ^ (-x.scale).toNat
      ≤ (4 * x.significand + 2) * (10 ^ (-place).toNat * 2 ^ x.scale.toNat) := by exact_mod_cast hle
  unfold upperEnd
  rw [two_zpow, zpow_eq_div (by norm_num) place, mul_div_assoc', mul_div_assoc', div_le_div_iff₀
    (by positivity) (by positivity)]
  linarith

theorem value_le_of_decimalAt? {d : Decimal} (h : x.decimalAt? place = some d) :
    d.value ≤ x.upperEnd := by
  have hlow (n : Nat) (hn : x.roundsTo n place = true) :
      Decimal.value ⟨n, place⟩ ≤ x.upperEnd := le_of_roundsTo hn
  unfold decimalAt? at h
  dsimp only at h
  split_ifs at h with hboth hdistance hfits hnext
  · obtain rfl := Option.some.inj h
    exact hlow _ hboth.1.2
  · obtain rfl := Option.some.inj h
    exact hlow _ hboth.2
  · obtain rfl := Option.some.inj h
    exact hlow _ hfits.2
  · obtain rfl := Option.some.inj h
    exact hlow _ hnext

theorem value_shortestFrom_le (x : Binary64) (fuel : Nat) (place : Int) :
    (x.shortestFrom fuel place).value ≤ x.upperEnd := by
  induction fuel generalizing place with
  | zero =>
    refine le_trans ?_ x.magnitude_le_upperEnd
    rw [magnitude_eq_div]
    exact floorAt_mul_le x.numerator x.denominator_pos place
  | succ fuel ih =>
    rw [shortestFrom]
    cases hplace : x.decimalAt? place with
    | none => exact ih (place - 1)
    | some d => exact value_le_of_decimalAt? hplace

/-- Zeros at the end stand for nothing but the exponent. -/
theorem Decimal.value_normalize (d : Decimal) (fuel : Nat) :
    (d.normalize fuel).value = d.value := by
  induction fuel generalizing d with
  | zero => rfl
  | succ fuel ih =>
    rw [normalize]
    split
    · next hzero =>
      rw [ih]
      -- A zero at the end goes over into the exponent.
      have hdigits : d.digits = d.digits / 10 * 10 := by omega
      unfold value
      conv_rhs => rw [hdigits]
      rw [zpow_add_one₀ (by norm_num)]
      push_cast
      ring
    · rfl

/-- **The shortest decimal** is at most half a step above its double. -/
theorem value_shortest_le (x : Binary64) : x.shortest.value ≤ x.upperEnd := by
  unfold shortest
  split
  · have hzero : Decimal.value ⟨0, 0⟩ = 0 := by simp [Decimal.value]
    rw [hzero]
    unfold upperEnd
    positivity
  · rw [Decimal.value_normalize]
    exact value_shortestFrom_le x _ _

end GraphIndex.Binary64
