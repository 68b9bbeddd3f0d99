import GraphIndex.Number.Binary64

/-!
# The fewest digits that read back

`shortest` gives the decimal `digits · 10 ^ exponent` with the fewest digits among those that round
to a given double, and of those the one nearest to it. Everything is decided in integers: a decimal
rounds to the double when it lies in the interval between the double and its neighbours.
-/

namespace GraphIndex.Binary64

/-- A positive decimal `digits · 10 ^ exponent`. -/
structure Decimal where
  digits : Nat
  exponent : Int
  deriving DecidableEq, Repr

/-- How many decimal digits a natural number has; zero has one. -/
def digitCount (n : Nat) : Nat := (Nat.toDigits 10 n).length

/-- `⌊num / den / 10 ^ place⌋`. -/
def floorAt (num den : Nat) (place : Int) : Nat :=
  num * Nat.pow 10 (-place).toNat / (den * Nat.pow 10 place.toNat)

/-- The exponent of the leading decimal digit of a positive ratio. -/
def leadingPlace (num den : Nat) : Int :=
  let guess : Int := digitCount num - digitCount den
  -- The counts of digits give the place up to one.
  if floorAt num den guess = 0 then guess - 1 else guess

/-- Whether `digits · 10 ^ place` rounds to the finite positive double `x`. -/
def roundsTo (x : Binary64) (digits : Nat) (place : Int) : Bool :=
  let m := x.significand
  -- Below a power of two the doubles are twice as dense.
  let below := if m = Nat.pow 2 52 ∧ 1 < x.exponentField then 1 else 2
  -- Four times the decimal, the lower and the upper end of the interval, over one denominator.
  let den := Nat.pow 10 (-place).toNat * Nat.pow 2 (-x.scale).toNat
  let point := 4 * digits * Nat.pow 10 place.toNat * Nat.pow 2 (-x.scale).toNat
  let unit := den / Nat.pow 2 (-x.scale).toNat * Nat.pow 2 x.scale.toNat
  let low := (4 * m - below) * unit
  let high := (4 * m + 2) * unit
  if m % 2 = 0 then decide (low ≤ point ∧ point ≤ high) else decide (low < point ∧ point < high)

/-- The distance from `digits · 10 ^ place` to `num / den`, up to a common factor. -/
def distanceAt (num den digits : Nat) (place : Int) : Nat :=
  let a := num * Nat.pow 10 (-place).toNat
  let b := digits * den * Nat.pow 10 place.toNat
  max a b - min a b

/-- The nearest decimal at a place that rounds to the double, if one does. -/
def decimalAt? (x : Binary64) (place : Int) : Option Decimal :=
  let low := floorAt x.numerator x.denominator place
  let lowFits := 0 < low ∧ x.roundsTo low place
  let highFits := x.roundsTo (low + 1) place
  if lowFits ∧ highFits then
    let d := distanceAt x.numerator x.denominator
    some ⟨if d low place ≤ d (low + 1) place then low else low + 1, place⟩
  else if lowFits then some ⟨low, place⟩
  else if highFits then some ⟨low + 1, place⟩
  else none

/-- Finer and finer places are tried, `fuel` of them at most. -/
def shortestFrom (x : Binary64) : Nat → Int → Decimal
  | 0, place => ⟨floorAt x.numerator x.denominator place, place⟩
  | fuel + 1, place => (x.decimalAt? place).getD (shortestFrom x fuel (place - 1))

/-- The digits without the zeros at their end. -/
def Decimal.normalize (d : Decimal) : Nat → Decimal
  | 0 => d
  | fuel + 1 =>
    if d.digits ≠ 0 ∧ d.digits % 10 = 0 then
      Decimal.normalize ⟨d.digits / 10, d.exponent + 1⟩ fuel
    else d

/-- The shortest decimal that reads back as the finite double `x`, without its sign. Seventeen
digits always suffice. -/
def shortest (x : Binary64) : Decimal :=
  if x.significand = 0 then ⟨0, 0⟩
  else
    let d := x.shortestFrom 17 (leadingPlace x.numerator x.denominator)
    d.normalize 18

end GraphIndex.Binary64
