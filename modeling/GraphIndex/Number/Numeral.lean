import GraphIndex.Number.Binary64

/-!
# Reading numbers

`Int64.ofText?` reads a whole number of sixty-four bits and `Binary64.ofText?` a double. Both want
the whole text: a sign, ASCII digits and, for a double, a point and an exponent; the names of the
infinities and of NaN are read too.
-/

namespace GraphIndex

namespace Numeral

/-- The value of a digit of ASCII. -/
def digitValue (c : Char) : Nat := c.toNat - '0'.toNat

/-- The natural number that a list of digits denotes, most significant first. -/
def value (ds : List Char) : Nat := ds.foldl (fun n c => 10 * n + digitValue c) 0

/-- Splits off the leading digits. -/
def spanDigits (s : List Char) : List Char × List Char :=
  (s.takeWhile Char.isDigit, s.dropWhile Char.isDigit)

/-- Splits off a sign; `true` stands for minus. -/
def spanSign : List Char → Bool × List Char
  | '-' :: r => (true, r)
  | '+' :: r => (false, r)
  | s => (false, s)

/-- The integer that a sign and digits denote. -/
def signed (negative : Bool) (n : Nat) : Int := if negative then -(n : Int) else n

/-- The exponent that follows the digits: none at all, or a letter, a sign and digits. -/
def exponent? : List Char → Option Int
  | [] => some 0
  | c :: r =>
    if c = 'e' ∨ c = 'E' then
      let (negative, r) := spanSign r
      if !r.isEmpty && r.all Char.isDigit then some (signed negative (value r)) else none
    else none

/-- A double without its sign: digits with at most one point among them, then the exponent. -/
def unsigned? (negative : Bool) (s : List Char) : Option Binary64 := do
  let (whole, rest) := spanDigits s
  let (fraction, rest) :=
    match rest with
    | '.' :: r => spanDigits r
    | r => ([], r)
  if whole.isEmpty && fraction.isEmpty then none
  else
    let e ← exponent? rest
    some (.ofDecimal negative (value (whole ++ fraction)) (e - fraction.length))

end Numeral

/-- Whether an integer fits sixty-four bits with sign. -/
def fitsInt64 (i : Int) : Bool :=
  decide (Int64.minValue.toInt ≤ i ∧ i ≤ Int64.maxValue.toInt)

theorem fitsInt64_toInt (i : Int64) : fitsInt64 i.toInt = true :=
  decide_eq_true ⟨i.le_toInt, i.toInt_le⟩

theorem fitsInt64_of_nonneg {i : Int} (hi : 0 ≤ i) :
    fitsInt64 i = true ↔ i ≤ Int64.maxValue.toInt := by
  unfold fitsInt64
  rw [decide_eq_true_iff, Int64.toInt_minValue]
  omega

theorem toInt_ofInt_of_fitsInt64 {i : Int} (hi : fitsInt64 i = true) :
    (Int64.ofInt i).toInt = i := by
  obtain ⟨hmin, hmax⟩ := of_decide_eq_true hi
  rw [Int64.toInt_minValue] at hmin
  rw [Int64.toInt_maxValue] at hmax
  exact Int64.toInt_ofInt_of_le hmin (by omega)

/-- The whole number of sixty-four bits that a text denotes. -/
def Numeral.int64? (s : List Char) : Option Int64 :=
  let (negative, ds) := Numeral.spanSign s
  if !ds.isEmpty && ds.all Char.isDigit then
    let i := Numeral.signed negative (Numeral.value ds)
    if fitsInt64 i then some (Int64.ofInt i) else none
  else none

/-- The double that a text denotes. -/
def Numeral.binary64? (s : List Char) : Option Binary64 :=
  let (negative, r) := Numeral.spanSign s
  let word := r.map Char.toLower
  if word = ['i', 'n', 'f'] ∨ word = "infinity".toList then some (.infinity negative)
  else if word = ['n', 'a', 'n'] then some .nan
  else Numeral.unsigned? negative r

end GraphIndex
