import GraphIndex.Query.Operand
import GraphIndex.Query.Operator

/-!
# Trees of conditions

A condition is a clause on one field or a group of conditions joined by "and" or "or"; each may be
negated.
-/

namespace GraphIndex

/-- How the members of a group are joined. -/
inductive Connective where
  /-- Every member must hold. -/
  | all
  /-- Some member must hold. -/
  | any
  deriving DecidableEq, Repr, Inhabited

/-- The word of a connective in statements. -/
def Connective.keyword : Connective → String
  | .all => "AND"
  | .any => "OR"

/-- A condition on one field. -/
structure Clause where
  field : String
  operator : Operator
  value : Operand
  negated : Bool
  deriving DecidableEq, Repr, Inhabited

/-- A condition or a group of conditions. -/
inductive Entry where
  | clause (clause : Clause)
  | group (kind : Connective) (members : List Entry) (negated : Bool)
  deriving Repr, Inhabited

namespace Clause

/-- A condition that is not negated. -/
def plain (field : String) (operator : Operator) (value : Operand) : Clause :=
  ⟨field, operator, value, false⟩

def equalTo (field : String) (value : Operand) : Clause := plain field (.compare .equal) value

def contains (field : String) (value : Operand) : Clause := plain field .contains value

def present (field : String) : Clause := plain field .present (.bool true)

def missing (field : String) : Clause := plain field .missing (.bool true)

/-- The operator in force: a test for presence or absence with the value "false" is the other
one. -/
def effectiveOperator (c : Clause) : Operator :=
  match c.operator, c.value.asBool? with
  | .present, some false => .missing
  | .missing, some false => .present
  | op, _ => op

/-- Equality by value. -/
def sameValue (c d : Clause) : Bool :=
  c.field == d.field && c.operator == d.operator && c.value.sameValue d.value
    && c.negated == d.negated

end Clause

namespace Entry

/-- The same condition with the opposite negation. -/
def negate : Entry → Entry
  | clause c => clause { c with negated := !c.negated }
  | group kind members negated => group kind members !negated

def isNegated : Entry → Bool
  | clause c => c.negated
  | group _ _ negated => negated

mutual

/-- Replaces every clause by the result of a step that may fail, from left to right. -/
def mapClauses {ε : Type} (step : Clause → Except ε Clause) : Entry → Except ε Entry
  | clause c => (step c).map clause
  | group kind members negated =>
    (mapClausesAll step members).map fun members => group kind members negated

/-- The same for every entry of a list. -/
def mapClausesAll {ε : Type} (step : Clause → Except ε Clause) :
    List Entry → Except ε (List Entry)
  | [] => .ok []
  | e :: rest => do
    let e ← e.mapClauses step
    let rest ← mapClausesAll step rest
    return e :: rest

end

mutual

/-- Equality by value. -/
def sameValue : Entry → Entry → Bool
  | clause c, clause d => c.sameValue d
  | group kind members negated, group kind' members' negated' =>
    kind == kind' && sameValues members members' && negated == negated'
  | _, _ => false

def sameValues : List Entry → List Entry → Bool
  | [], [] => true
  | e :: rest, e' :: rest' => e.sameValue e' && sameValues rest rest'
  | _, _ => false

end

end Entry

end GraphIndex
