import GraphIndex.Number.Layout

/-!
# Values of conditions

The right-hand side of a condition: a truth value, a whole number, a double or a text.
-/

namespace GraphIndex

/-- A value on the right-hand side of a condition. -/
inductive Operand where
  | bool (value : Bool)
  | integer (value : Int64)
  | real (value : Binary64)
  | text (value : String)
  deriving DecidableEq, Repr, Inhabited

namespace Operand

/-- Integral doubles below this size are written as whole numbers. -/
def wholeLimit : Nat := Nat.pow 10 15

/-- The text of a double: a whole number where it is one and not too large, otherwise the fewest
digits without exponent. -/
def realText (x : Binary64) : String :=
  if x.isInteger && decide (x.truncate.natAbs < wholeLimit) then toString x.truncate else x.plain

/-- The text under which a value is compared with stored texts. -/
def asText : Operand → String
  | bool true => "true"
  | bool false => "false"
  | integer i => toString i.toInt
  | real x => realText x
  | text s => s

/-- Whether two texts agree up to the case of ASCII letters. -/
def sameIgnoringCase (s t : String) : Bool := s.toList.map Char.toLower == t.toList.map Char.toLower

/-- The truth value that a value stands for, itself or as a text. -/
def asBool? : Operand → Option Bool
  | bool b => some b
  | text s =>
    if sameIgnoringCase s "true" then some true
    else if sameIgnoringCase s "false" then some false
    else none
  | _ => none

/-- The text that a value is. -/
def asString? : Operand → Option String
  | text s => some s
  | _ => none

/-- Equality by value: doubles are compared as numbers. -/
def sameValue : Operand → Operand → Bool
  | real x, real y => x.sameValue y
  | v, w => v == w

end Operand

end GraphIndex
