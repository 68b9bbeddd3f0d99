import GraphIndex.Number.Extended
import GraphIndex.Number.Layout

/-!
# Values of the store

A cell of the store is null, a whole number of sixty-four bits, a double or a text. `Datum.order`
is the order in which values are sorted: null, then numbers by value, then texts by their bytes.

A column or an expression may have an affinity, a kind of value it prefers. Values are brought into
it when they are stored and when they are compared; `Datum.compare` says when.
-/

namespace GraphIndex

/-- A value of the store. -/
inductive Datum where
  | null
  | integer (value : Int64)
  | real (value : Binary64)
  | text (value : String)
  deriving DecidableEq, Repr, Inhabited

/-- The kind of value that a column or an expression prefers. -/
inductive Affinity where
  | text
  | integer
  | real
  deriving DecidableEq, Repr, Inhabited

/-- Whether an affinity prefers numbers. -/
def Affinity.isNumeric : Affinity → Bool
  | text => false
  | integer | real => true

/-! ### Numbers in texts -/

namespace NumericText

/-- The blanks that may stand around a number. -/
def isSpace (c : Char) : Bool := c = ' ' ∨ (9 ≤ c.toNat ∧ c.toNat ≤ 13)

/-- What a text begins with: a number, how much of it is an integer, and what follows it. -/
structure Leading where
  /-- The value of the leading digits before any point. -/
  whole : Int
  /-- Whether a point or an exponent follows those digits. -/
  isFractional : Bool
  value : Binary64
  rest : List Char

/-- The number that the digits of an exponent denote; from ten thousand on only its size matters. -/
def exponentValue (ds : List Char) : Nat :=
  ds.foldl (fun n c => if n < 10000 then 10 * n + Numeral.digitValue c else 10000) 0

/-- An exponent, if one stands here complete. -/
def exponent (s : List Char) : Option (Int × List Char) :=
  match s with
  | c :: r =>
    if c = 'e' ∨ c = 'E' then
      let (negative, r) := Numeral.spanSign r
      let (ds, r) := Numeral.spanDigits r
      if ds.isEmpty then none else some (Numeral.signed negative (exponentValue ds), r)
    else none
  | [] => none

/-- The number that a text begins with, after blanks; a text without one begins with zero. -/
def leading (s : List Char) : Option Leading :=
  let s := s.dropWhile isSpace
  let (negative, s) := Numeral.spanSign s
  let (whole, s) := Numeral.spanDigits s
  let (fraction, hasPoint, s) :=
    match s with
    | '.' :: r => let (ds, r) := Numeral.spanDigits r; (ds, true, r)
    | _ => ([], false, s)
  if whole.isEmpty && fraction.isEmpty then none
  else
    let (e, hasExponent, s) :=
      match exponent s with
      | some (e, r) => (e, true, r)
      | none => (0, false, s)
    some ⟨Numeral.signed negative (Numeral.value whole), hasPoint || hasExponent,
      .ofSteps negative whole fraction e, s⟩

end NumericText

namespace Datum

/-- A double, or null for a NaN. -/
def ofReal (x : Binary64) : Datum := if x.isNaN then .null else .real x

def isNull : Datum → Bool
  | null => true
  | _ => false

/-- A number that a text begins with, as an integer if it has neither point nor exponent and fits
sixty-four bits. -/
def ofLeading (n : NumericText.Leading) : Datum :=
  if !n.isFractional && fitsInt64 n.whole then .integer (Int64.ofInt n.whole) else ofReal n.value

/-- The number that a whole text denotes; blanks may stand around it. -/
def ofNumericText? (s : String) : Option Datum :=
  match NumericText.leading s.toList with
  | some n => if n.rest.all NumericText.isSpace then some (ofLeading n) else none
  | none => none

/-- The text of a value other than null. -/
def toText? : Datum → Option String
  | null => none
  | integer i => some (toString i.toInt)
  | real x => some x.rounded
  | text s => some s

/-- A text up to its first NUL, as far as functions of the store read it. -/
def untilNul (s : List Char) : List Char := s.takeWhile fun c => c.toNat != 0

/-! ### Order -/

/-- Sorts the kinds of values: null, numbers, texts. -/
def rank : Datum → Nat
  | null => 0
  | integer _ | real _ => 1
  | text _ => 2

/-- The order of two texts: that of their bytes, which is the order of their characters. -/
def textOrder (s t : String) : Ordering := if s < t then .lt else if s = t then .eq else .gt

/-- The order in which values are sorted; nulls are equal. -/
def order : Datum → Datum → Ordering
  | integer i, integer j => Ord.compare i.toInt j.toInt
  -- No NaN is stored, so that the default is never taken.
  | integer i, real x => (Binary64.compareInt? i.toInt x).getD .eq
  | real x, integer i => ((Binary64.compareInt? i.toInt x).getD .eq).swap
  | real x, real y => (x.compare? y).getD .eq
  | text s, text t => textOrder s t
  | d, e => Ord.compare d.rank e.rank

/-! ### Affinity -/

/-- The value with numeric texts turned into numbers. -/
def preferNumber : Datum → Datum
  | text s => (ofNumericText? s).getD (.text s)
  | d => d

/-- The value with numbers turned into texts. -/
def preferText (d : Datum) : Datum :=
  match d.toText? with
  | some s => .text s
  | none => .null

/-- Both sides of a comparison prefer what decides: numbers if one side has a numeric affinity and
texts if only one side has an affinity, that of texts. -/
def prefer (left right : Option Affinity) (d : Datum) : Datum :=
  match left, right with
  | none, none => d
  | some a, none | none, some a => if a.isNumeric then d.preferNumber else d.preferText
  | some a, some b => if a.isNumeric || b.isNumeric then d.preferNumber else d

/-- The comparison of two values of given affinities; unknown if one is null. -/
def compare (left right : Option Affinity) (d e : Datum) : Option Ordering :=
  if d.isNull || e.isNull then none
  else some ((d.prefer left right).order (e.prefer left right))

/-- What a text column stores. -/
def inTextColumn (d : Datum) : Option String := d.toText?

/-- An integral double as an integer, if it lies strictly between the extremes of sixty-four
bits. -/
def preferInteger : Datum → Datum
  | real x =>
    let i := x.truncate
    if x.isInteger && decide (Int64.minValue.toInt < i ∧ i < Int64.maxValue.toInt) then
      .integer (Int64.ofInt i)
    else .real x
  | d => d

/-- What an integer column stores: numeric texts become numbers, integral doubles integers. -/
def inIntegerColumn (d : Datum) : Datum := d.preferNumber.preferInteger

end Datum

end GraphIndex
