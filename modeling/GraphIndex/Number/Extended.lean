import GraphIndex.Number.Numeral

/-!
# Decimals read by steps

`Binary64.ofSteps` is the double that the store reads from the digits of a decimal. As many digits
are taken as fit sixty-four bits. The power of ten that is left over is multiplied in by steps of a
hundred, of ten and of one decimal place, in binary floating point with sixty-four bits of
significand, where each step rounds; the double is rounded from the last product. For a decimal with
a fraction this need not be the nearest double.
-/

namespace GraphIndex

/-! ### Sixty-four bits of significand -/

/-- The number `significand * 2 ^ scale`. The exponent has no bounds: where those of the store's
format would matter, the double is infinite or zero all the same. -/
structure Extended where
  significand : Nat
  scale : Int
  deriving DecidableEq, Repr

namespace Extended

/-- The scale at which `num / den` has a significand of sixty-four bits. -/
def scaleFor (num den : Nat) : Int :=
  let q : Int := (num.log2 : Int) - den.log2 - 64
  -- The logarithms give the scale up to one.
  let wide := Nat.pow 2 64 ≤ (num * Nat.pow 2 (-q).toNat) / (den * Nat.pow 2 q.toNat)
  if wide then q + 1 else q

/-- The number nearest to `num / den`; a tie goes to the even significand. -/
def ofRatio (num den : Nat) : Extended :=
  let q := scaleFor num den
  ⟨Binary64.roundAt num den q, q⟩

/-- The product, rounded once. -/
def mul (x y : Extended) : Extended :=
  let product := ofRatio (x.significand * y.significand) 1
  { product with scale := product.scale + x.scale + y.scale }

/-- The product with a power of ten, by steps of a hundred, of ten and of one place; `step` gives
the factor for so many places. -/
def shift (step : Nat → Extended) (places : Nat) (x : Extended) : Extended :=
  let times (size count : Nat) (x : Extended) : Extended := Nat.repeat (mul (step size)) count x
  times 1 (places % 10) (times 10 (places % 100 / 10) (times 100 (places / 100) x))

/-- The factor that moves the point to the right. -/
def stepUp (places : Nat) : Extended := ofRatio (Nat.pow 10 places) 1

/-- The factor that moves the point to the left. -/
def stepDown (places : Nat) : Extended := ofRatio 1 (Nat.pow 10 places)

/-- The largest finite double. -/
def largest : Nat := (Nat.pow 2 53 - 1) * Nat.pow 2 971

/-- The nearest double; what is above the largest finite one is infinite, however near. -/
def toBinary64 (negative : Bool) (x : Extended) : Binary64 :=
  let num := x.significand * Nat.pow 2 x.scale.toNat
  let den := Nat.pow 2 (-x.scale).toNat
  if largest * den < num then .infinity negative else .ofRatio negative num den

end Extended

/-! ### Digits -/

namespace Numeral

/-- The largest number of sixty-four bits without sign. -/
def maxUnsigned : Nat := Nat.pow 2 64 - 1

/-- Appends digits to a number as long as one more digit is sure to fit sixty-four bits; with the
number comes how many were taken. -/
def takeDigits (n : Nat) : List Char → Nat × Nat
  | [] => (n, 0)
  | c :: rest =>
    if n < (maxUnsigned - 9) / 10 then
      let (m, taken) := takeDigits (10 * n + digitValue c) rest
      (m, taken + 1)
    else (n, 0)

/-- Appends zeros to a number in place of a power of ten, as far as sixty-four bits go; with the
number comes the exponent that is left. -/
def padZeros (n : Nat) : Nat → Nat × Nat
  | 0 => (n, 0)
  | e + 1 => if n < maxUnsigned / 10 then padZeros (10 * n) e else (n, e + 1)

/-- Drops the last zeros of a number in place of places behind the point; with the number comes how
many places are left. -/
def dropZeros (n : Nat) : Nat → Nat × Nat
  | 0 => (n, 0)
  | e + 1 => if n % 10 = 0 then dropZeros (n / 10) e else (n, e + 1)

end Numeral

namespace Binary64

open Numeral

/-- The double of `± n · 10 ^ exponent`, read by steps. -/
def ofShifted (negative : Bool) (n : Nat) (exponent : Int) : Binary64 :=
  if n = 0 then zero negative
  else
    let (n, up) := padZeros n exponent.toNat
    let (n, down) := dropZeros n (-exponent).toNat
    -- Of the two exponents one is zero from the start.
    if up = 0 ∧ down = 0 then ofRatio negative n 1
    else
      let x := Extended.ofRatio n 1
      ((x.shift .stepUp up).shift .stepDown down).toBinary64 negative

/-- The double that is read from the digits before and behind the point of a decimal and its
exponent. -/
def ofSteps (negative : Bool) (whole fraction : List Char) (exponent : Int) : Binary64 :=
  let (n, wholeTaken) := takeDigits 0 whole
  let (n, fractionTaken) := takeDigits n fraction
  ofShifted negative n (exponent + (whole.length - wholeTaken : Nat) - fractionTaken)

end Binary64

end GraphIndex
