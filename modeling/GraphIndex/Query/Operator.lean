import GraphIndex.Text.Blank
import GraphIndex.Text.Lowercase

/-!
# Operators of conditions

A condition compares a field with a value, looks for a value inside it, or asks whether the field
is there. `Operator.ofText?` reads the spellings in use, `Operator.symbol` writes the chosen one.
-/

namespace GraphIndex

/-- The six comparisons. -/
inductive Comparison where
  | equal
  | notEqual
  | greater
  | less
  | atLeast
  | atMost
  deriving DecidableEq, Repr, Inhabited

/-- What a condition asks of a field. -/
inductive Operator where
  | compare (comparison : Comparison)
  /-- The value occurs in the field. -/
  | contains
  /-- The field has a value. -/
  | present
  /-- The field is missing or blank. -/
  | missing
  deriving DecidableEq, Repr, Inhabited

namespace Comparison

/-- The symbol of a comparison, in conditions and in statements alike. -/
def symbol : Comparison → String
  | equal => "="
  | notEqual => "!="
  | greater => ">"
  | less => "<"
  | atLeast => ">="
  | atMost => "<="

/-- Whether the comparison asks for an order, not only for equality. -/
def isOrdering : Comparison → Bool
  | equal | notEqual => false
  | greater | less | atLeast | atMost => true

/-- Whether the comparison holds of two values in the given order. -/
def holds : Comparison → Ordering → Bool
  | equal, o => o == .eq
  | notEqual, o => o != .eq
  | greater, o => o == .gt
  | less, o => o == .lt
  | atLeast, o => o != .lt
  | atMost, o => o != .gt

end Comparison

namespace Operator

/-- The written form of an operator. -/
def symbol : Operator → String
  | compare c => c.symbol
  | contains => "~"
  | present => "exists"
  | missing => "is_empty"

def isOrdering : Operator → Bool
  | compare c => c.isOrdering
  | _ => false

/-- Whether the operator asks only if the field is there. -/
def isExistenceTest : Operator → Bool
  | present | missing => true
  | _ => false

/-- The word that decides which operator a spelling means. -/
def keyOf (s : String) : String := Text.lowercase (Text.trim s)

/-- The operator of a key. -/
def ofKey? : String → Option Operator
  | "=" | "==" | "eq" => some (compare .equal)
  | "!=" | "<>" | "ne" | "neq" => some (compare .notEqual)
  | ">" | "gt" => some (compare .greater)
  | "<" | "lt" => some (compare .less)
  | ">=" | "gte" => some (compare .atLeast)
  | "<=" | "lte" => some (compare .atMost)
  | "~" | "contains" => some contains
  | "exists" => some present
  | "is_empty" | "is empty" => some missing
  | _ => none

/-- The operator that a text spells, as a symbol or a word in any letter case. -/
def ofText? (s : String) : Option Operator := ofKey? (keyOf s)

theorem ofKey?_symbol (op : Operator) : ofKey? op.symbol = some op := by
  cases op with
  | compare c => cases c <;> rfl
  | contains => rfl
  | present => rfl
  | missing => rfl

end Operator

end GraphIndex
