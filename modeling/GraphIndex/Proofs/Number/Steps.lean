import GraphIndex.Number.Extended
import GraphIndex.Proofs.Number.Overflow

/-!
# Decimals read by steps

What the store reads from the digits of a decimal is never a NaN (`Binary64.isNaN_ofSteps`). A whole
number of up to eighteen digits is read as its nearest double (`Binary64.ofSteps_whole`); a decimal
with a fraction need not be.
-/

namespace GraphIndex

open Numeral

namespace Binary64

theorem isNaN_ofSteps (negative : Bool) (whole fraction : List Char) (exponent : Int) :
    (ofSteps negative whole fraction exponent).isNaN = false := by
  unfold ofSteps ofShifted Extended.toBinary64
  dsimp only
  split_ifs
  · exact isNaN_ofFields negative (by decide)
  · exact isNaN_ofRatio negative _ _
  · exact isNaN_ofFields negative le_rfl
  · exact isNaN_ofRatio negative _ _

end Binary64

namespace Numeral

/-- The number that digits denote behind others does not lie below the number before them. -/
theorem le_foldl_digits (ds : List Char) (n : Nat) :
    n ≤ ds.foldl (fun n c => 10 * n + digitValue c) n := by
  induction ds generalizing n with
  | nil => exact le_rfl
  | cons c ds ih => exact le_trans (by omega) (ih (10 * n + digitValue c))

/-- All digits are taken if the number that they denote leaves room for one more. -/
theorem takeDigits_eq {ds : List Char} {n : Nat}
    (h : ds.foldl (fun n c => 10 * n + digitValue c) n < (maxUnsigned - 9) / 10) :
    takeDigits n ds = (ds.foldl (fun n c => 10 * n + digitValue c) n, ds.length) := by
  induction ds generalizing n with
  | nil => rfl
  | cons c ds ih =>
    have hn : n < (maxUnsigned - 9) / 10 := lt_of_le_of_lt (le_foldl_digits (c :: ds) n) h
    rw [takeDigits, if_pos hn, ih h]
    rfl

end Numeral

namespace Binary64

theorem ofShifted_zero (negative : Bool) {n : Nat} (hn : n ≠ 0) :
    ofShifted negative n 0 = ofRatio negative n 1 := by
  unfold ofShifted
  rw [if_neg hn]
  simp only [Int.toNat_zero, neg_zero, padZeros, dropZeros, and_self, if_true]

theorem ofDecimal_zero (negative : Bool) {n : Nat} (hn : n ≠ 0) :
    ofDecimal negative n 0 = ofRatio negative n 1 := by
  unfold ofDecimal
  dsimp only
  rw [if_neg hn, if_neg (by decide), if_neg (by omega)]
  simp only [Int.toNat_zero, neg_zero, Nat.pow_eq, pow_zero, mul_one]

/-- **Whole numbers of up to eighteen digits** are read as the nearest double. -/
theorem ofSteps_whole (negative : Bool) {whole : List Char} (h : Numeral.value whole < 10 ^ 18) :
    ofSteps negative whole [] 0 = ofDecimal negative (Numeral.value whole) 0 := by
  have hroom : 10 ^ 18 < (maxUnsigned - 9) / 10 := by decide
  have htaken : takeDigits 0 whole = (Numeral.value whole, whole.length) :=
    takeDigits_eq (h.trans hroom)
  have hsteps : ofSteps negative whole [] 0 = ofShifted negative (Numeral.value whole) 0 := by
    unfold ofSteps
    rw [htaken]
    simp only [takeDigits, Nat.sub_self, Nat.cast_zero, zero_add, sub_zero]
  rw [hsteps]
  by_cases hzero : Numeral.value whole = 0
  · rw [ofShifted, ofDecimal, if_pos hzero, if_pos hzero]
  · rw [ofShifted_zero negative hzero, ofDecimal_zero negative hzero]

/-- This decimal is read as a double next to the nearest one. -/
example : ofSteps false ['2', '5', '4'] ['1', '7', '2', '8', '6'] 0 = ⟨0x406fc58811b1d92c⟩ ∧
    ofDecimal false 25417286 (-5) = ⟨0x406fc58811b1d92b⟩ := by decide +kernel

end Binary64

end GraphIndex
