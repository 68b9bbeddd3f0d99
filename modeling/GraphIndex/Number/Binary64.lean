/-!
# Binary floating point of sixty-four bits

A `Binary64` is the sixty-four bits of a double. A finite one is `± significand · 2 ^ scale`, and
every operation is given on those two integers: `ofRatio` rounds a ratio of integers to the nearest
double, a tie going to the even significand, and arithmetic is exact arithmetic rounded once.
Nothing here depends on the floating point of the machine.
-/

namespace GraphIndex

/-- A double, held as its bits: one of sign, eleven of exponent, fifty-two of fraction. -/
structure Binary64 where
  bits : UInt64
  deriving DecidableEq, Repr, Inhabited

namespace Binary64

/-! ### The three fields -/

/-- Whether the sign bit is set. -/
def isNegative (x : Binary64) : Bool := decide (Nat.pow 2 63 ≤ x.bits.toNat)

/-- The eleven bits of the exponent. -/
def exponentField (x : Binary64) : Nat := x.bits.toNat / Nat.pow 2 52 % Nat.pow 2 11

/-- The fifty-two bits of the fraction. -/
def fractionField (x : Binary64) : Nat := x.bits.toNat % Nat.pow 2 52

/-- Neither infinite nor a NaN. -/
def isFinite (x : Binary64) : Bool := x.exponentField != 2047

def isNaN (x : Binary64) : Bool := x.exponentField == 2047 && x.fractionField != 0

def isInfinite (x : Binary64) : Bool := x.exponentField == 2047 && x.fractionField == 0

/-- The integer `m` of a finite double `± m · 2 ^ q`. -/
def significand (x : Binary64) : Nat :=
  if x.exponentField = 0 then x.fractionField else Nat.pow 2 52 + x.fractionField

/-- The exponent `q` of a finite double `± m · 2 ^ q`. -/
def scale (x : Binary64) : Int := (max x.exponentField 1 : Nat) - 1075

/-! ### Values by name -/

/-- The double of a sign and the other sixty-three bits. -/
def ofFields (negative : Bool) (magnitude : Nat) : Binary64 :=
  ⟨UInt64.ofNat ((if negative then Nat.pow 2 63 else 0) + magnitude)⟩

def zero (negative : Bool) : Binary64 := ofFields negative 0

def infinity (negative : Bool) : Binary64 := ofFields negative (2047 * Nat.pow 2 52)

def nan : Binary64 := ofFields false (2047 * Nat.pow 2 52 + Nat.pow 2 51)

/-! ### Exact values -/

/-- The numerator, without sign, of a finite double as a ratio of integers. -/
def numerator (x : Binary64) : Nat := x.significand * Nat.pow 2 x.scale.toNat

/-- The denominator of a finite double as a ratio of integers. -/
def denominator (x : Binary64) : Nat := Nat.pow 2 (-x.scale).toNat

/-- The numerator with its sign. -/
def signedNumerator (x : Binary64) : Int :=
  if x.isNegative then -(x.numerator : Int) else x.numerator

theorem denominator_pos (x : Binary64) : 0 < x.denominator := Nat.two_pow_pos _

/-- The quotient of two naturals, rounded to the nearest one; a tie goes to the even one. -/
def roundDiv (a b : Nat) : Nat :=
  let q := a / b
  let r := a % b
  if 2 * r < b then q else if b < 2 * r then q + 1 else if q % 2 = 0 then q else q + 1

/-- The quotient `num / den` divided by `2 ^ q` and rounded to the nearest natural. -/
def roundAt (num den : Nat) (q : Int) : Nat :=
  roundDiv (num * Nat.pow 2 (-q).toNat) (den * Nat.pow 2 q.toNat)

/-- The scale at which `num / den` has a significand of fifty-three bits, but never below the
scale of the smallest double. -/
def scaleFor (num den : Nat) : Int :=
  let q : Int := (num.log2 : Int) - den.log2 - 53
  -- The logarithms give the scale up to one.
  let wide := Nat.pow 2 53 ≤ (num * Nat.pow 2 (-q).toNat) / (den * Nat.pow 2 q.toNat)
  max (if wide then q + 1 else q) (-1074)

/-- The double nearest to `± num / den`; a tie goes to the even significand, and what is too
large becomes infinite. -/
def ofRatio (negative : Bool) (num den : Nat) : Binary64 :=
  if num = 0 then zero negative
  else
    let q := scaleFor num den
    -- A significand of `2 ^ 53` carries into the exponent field by itself.
    let magnitude := (q + 1074).toNat * Nat.pow 2 52 + roundAt num den q
    ofFields negative (min magnitude (2047 * Nat.pow 2 52))

/-- The double nearest to a ratio with a signed numerator; zero is positive. -/
def ofSignedRatio (num : Int) (den : Nat) : Binary64 := ofRatio (decide (num < 0)) num.natAbs den

def ofInt (i : Int) : Binary64 := ofSignedRatio i 1

/-- The double nearest to `± digits · 10 ^ exponent`. Exponents that no double can reach are
settled without the power. -/
def ofDecimal (negative : Bool) (digits : Nat) (exponent : Int) : Binary64 :=
  let size : Int := digits.log2
  if digits = 0 then zero negative
  else if 400 < exponent then infinity negative
  else if exponent < -400 - size then zero negative
  else ofRatio negative (digits * Nat.pow 10 exponent.toNat) (Nat.pow 10 (-exponent).toNat)

/-! ### Order and integers -/

/-- The order of two doubles by value; `none` if one is a NaN. -/
def compare? (x y : Binary64) : Option Ordering :=
  if x.isNaN || y.isNaN then none
  else if x.isInfinite && y.isInfinite then some (compare y.isNegative x.isNegative)
  else if x.isInfinite then some (if x.isNegative then .lt else .gt)
  else if y.isInfinite then some (if y.isNegative then .gt else .lt)
  else some (compare (x.signedNumerator * y.denominator) (y.signedNumerator * x.denominator))

/-- The order of an integer and a double by value; `none` if the double is a NaN. -/
def compareInt? (i : Int) (x : Binary64) : Option Ordering :=
  if x.isNaN then none
  else if x.isInfinite then some (if x.isNegative then .gt else .lt)
  else some (compare (i * x.denominator) x.signedNumerator)

/-- Equality by value: the two zeros are equal, a NaN equals nothing. -/
def sameValue (x y : Binary64) : Bool := x.compare? y == some .eq

/-- The integer part of a finite double, toward zero. -/
def truncate (x : Binary64) : Int := x.signedNumerator.tdiv x.denominator

/-- Whether a double is a finite integer. -/
def isInteger (x : Binary64) : Bool := x.isFinite && x.numerator % x.denominator == 0

/-! ### Arithmetic -/

/-- The sum, rounded once. -/
def add (x y : Binary64) : Binary64 :=
  if x.isNaN || y.isNaN then nan
  else if x.isInfinite then
    if y.isInfinite && x.isNegative != y.isNegative then nan else x
  else if y.isInfinite then y
  else
    let num := x.signedNumerator * y.denominator + y.signedNumerator * x.denominator
    -- A sum of zero is negative only if both terms are.
    if num = 0 then zero (x.isNegative && y.isNegative)
    else ofSignedRatio num (x.denominator * y.denominator)

/-- The product, rounded once. -/
def mul (x y : Binary64) : Binary64 :=
  let negative := x.isNegative != y.isNegative
  if x.isNaN || y.isNaN then nan
  else if x.isInfinite || y.isInfinite then
    if (x.isFinite && x.significand == 0) || (y.isFinite && y.significand == 0) then nan
    else infinity negative
  else ofRatio negative (x.numerator * y.numerator) (x.denominator * y.denominator)

/-- The quotient, rounded once. -/
def div (x y : Binary64) : Binary64 :=
  let negative := x.isNegative != y.isNegative
  if x.isNaN || y.isNaN || (x.isInfinite && y.isInfinite) then nan
  else if x.isInfinite then infinity negative
  else if y.isInfinite then zero negative
  else if y.significand = 0 then if x.significand = 0 then nan else infinity negative
  else ofRatio negative (x.numerator * y.denominator) (x.denominator * y.numerator)

/-- The double with the other sign. -/
def neg (x : Binary64) : Binary64 := ofFields (!x.isNegative) (x.bits.toNat % Nat.pow 2 63)

instance : Add Binary64 := ⟨add⟩
instance : Mul Binary64 := ⟨mul⟩
instance : Div Binary64 := ⟨div⟩
instance : Neg Binary64 := ⟨neg⟩

end Binary64

end GraphIndex
