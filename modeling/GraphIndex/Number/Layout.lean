import GraphIndex.Number.Shortest

/-!
# Writing doubles

Three layouts are in use. `plain` never uses an exponent, `scientific` uses one for very large and
very small values, as JSON texts do, and `rounded` is the store's text of a real number: fifteen
significant digits.
-/

namespace GraphIndex.Binary64

/-- The decimal digits of a natural number. -/
def digitChars (n : Nat) : List Char := Nat.toDigits 10 n

def zeros (n : Nat) : List Char := List.replicate n '0'

/-- A decimal without exponent; `whole` is added to one without fraction. -/
def positional (d : Decimal) (whole : List Char) : List Char :=
  let ds := digitChars d.digits
  if 0 ≤ d.exponent then
    (if d.digits = 0 then ['0'] else ds ++ zeros d.exponent.toNat) ++ whole
  else
    let places := (-d.exponent).toNat
    -- The point stands before the digits, or among them.
    if ds.length ≤ places then ['0', '.'] ++ zeros (places - ds.length) ++ ds
    else ds.take (ds.length - places) ++ '.' :: ds.drop (ds.length - places)

/-- An integer with its sign, the plus sign included. -/
def signedChars (i : Int) : List Char :=
  (if i < 0 then '-' else '+') :: digitChars i.natAbs

/-- A minus sign in front of a negative double. -/
def withSign (x : Binary64) (body : List Char) : String :=
  .ofList (if x.isNegative then '-' :: body else body)

/-- The texts of what is not finite. -/
def specialText (x : Binary64) : String :=
  if x.isNaN then "NaN" else if x.isNegative then "-inf" else "inf"

/-- The shortest digits without exponent; an integer has no fraction. -/
def plain (x : Binary64) : String :=
  if x.isFinite then x.withSign (positional x.shortest []) else x.specialText

/-- The shortest digits without exponent; a finite value always shows a fraction. -/
def plainWithFraction (x : Binary64) : String :=
  if x.isFinite then x.withSign (positional x.shortest ['.', '0']) else x.specialText

/-- The shortest digits, positional from `10 ^ -5` up to `10 ^ 16` and with an exponent beyond;
finite doubles only. -/
def scientific (x : Binary64) : String :=
  let d := x.shortest
  let ds := digitChars d.digits
  let lead : Int := d.exponent + ds.length - 1
  if d.digits = 0 ∨ (-5 ≤ lead ∧ lead < 16) then x.withSign (positional d ['.', '0'])
  else
    let fraction := if ds.length ≤ 1 then [] else '.' :: ds.drop 1
    x.withSign (ds.take 1 ++ fraction ++ 'e' :: signedChars lead)

/-- A positive double to fifteen significant digits, a half going up. -/
def fifteen (x : Binary64) : Decimal :=
  let place := leadingPlace x.numerator x.denominator - 14
  let twice := floorAt (2 * x.numerator) x.denominator place
  ⟨(twice + 1) / 2, place⟩

/-- Fifteen significant digits, positional from `10 ^ -4` up to `10 ^ 15` and with an exponent of
at least two digits beyond; a fraction is always shown and zero has no sign. -/
def rounded (x : Binary64) : String :=
  if x.isInfinite then (if x.isNegative then "-Inf" else "Inf")
  else if x.significand = 0 then "0.0"
  else
    let d := x.fifteen.normalize 18
    let ds := digitChars d.digits
    let lead : Int := d.exponent + ds.length - 1
    if -4 ≤ lead ∧ lead ≤ 14 then x.withSign (positional d ['.', '0'])
    else
      let fraction := if ds.length ≤ 1 then ['.', '0'] else '.' :: ds.drop 1
      let sign := if lead < 0 then '-' else '+'
      let size := digitChars lead.natAbs
      x.withSign (ds.take 1 ++ fraction ++ 'e' :: sign :: zeros (2 - size.length) ++ size)

end GraphIndex.Binary64
