import GraphIndex.Json.Decode
import GraphIndex.Query.Field
import GraphIndex.Query.Operator

/-!
# Refusals

Why a request is refused or fails. A `Fault` is found in the request itself, before the store is
touched, and names only the field or value at fault; `QueryError` adds dates that cannot be read,
dates before which no point in time can be counted, texts that are no query, and failures of the
store. `message` words each of them.
-/

namespace GraphIndex

/-- What is wrong with a request. -/
inductive Fault where
  | route (fault : RouteFault)
  | unknownOperator (word : String)
  | unsupportedOperator (operator : Operator) (field : String)
  /-- A custom field is compared by order with something that is no number. -/
  | needsNumber (operator : Operator) (field : String) (got : Option String)
  | missingTarget
  | limitTooSmall (limit : Int64)
  | negativeOffset (offset : Int64)
  | topTooSmall (top : Int64)
  | wrongDimensionCount (count : Nat)
  | orderByParentTags
  /-- Conditions that are neither an object nor a list. -/
  | conditionsShape (got : Json)
  | conditionList (cause : DecodeError)
  | needsConditionList (key : String)
  | needsFlag (key field : String)
  | needsOperatorObject (field : String)
  | needsScalar (key field : String)
  | needsScalarItems (field : String)
  deriving Repr

/-- A fault's text. -/
def Fault.message : Fault → String
  | route (.unknownParentField field) =>
    "unknown parent field '" ++ field ++ "', expected parent.name or parent.tags"
  | route .emptyName => "field name must not be empty"
  | unknownOperator word => "unknown operator '" ++ word ++ "'"
  | unsupportedOperator operator field =>
    "operator '" ++ operator.symbol ++ "' is not supported for " ++ field
  | needsNumber operator field got =>
    "'" ++ operator.symbol ++ "' on '" ++ field ++ "' needs a numeric value"
      ++ (match got with
        | some s => ", got '" ++ s ++ "'"
        | none => "")
  | missingTarget => "find is required"
  | limitTooSmall limit => "limit must be at least 1, got " ++ toString limit.toInt
  | negativeOffset offset => "offset must not be negative, got " ++ toString offset.toInt
  | topTooSmall top => "top must be at least 1, got " ++ toString top.toInt
  | wrongDimensionCount count => "groupBy requires 1 or 2 dimensions, got " ++ toString count
  | orderByParentTags => "cannot order by parent.tags"
  | conditionsShape got => "where must be an object or a list, got " ++ got.write
  | conditionList cause => "invalid where clause list: " ++ cause.message
  | needsConditionList key => "'" ++ key ++ "' expects a list of conditions"
  | needsFlag key field => "'" ++ key ++ "' on '" ++ field ++ "' expects true or false"
  | needsOperatorObject field => "'not' on '" ++ field ++ "' expects an operator object"
  | needsScalar key field =>
    "'" ++ key ++ "' on '" ++ field ++ "' expects a string, number or boolean"
  | needsScalarItems field =>
    "list values for '" ++ field ++ "' must be strings, numbers or booleans"

/-- Where the text of a query stops being one. -/
inductive LanguageFault where
  /-- The text of the query is complete and something follows it. -/
  | trailing (rest : String)
  /-- The text stops being a query here. -/
  | unexpected (rest : String)
  deriving DecidableEq, Repr

def LanguageFault.message : LanguageFault → String
  | trailing rest => "Unexpected input after query: '" ++ rest ++ "'"
  | unexpected rest => "Unexpected input at: '" ++ rest ++ "'"

/-- Why a request fails. -/
inductive QueryError where
  | invalid (fault : Fault)
  /-- A text or value that denotes no point in time. -/
  | invalidDate (text : String)
  /-- A point in time was counted back beyond sixty-four bits, and the program stopped there. -/
  | overflow
  | language (fault : LanguageFault)
  /-- The store does not hold what the statement reads. -/
  | storage
  /-- The place of the store cannot be reached. -/
  | unreachable
  deriving Repr

/-- The text of a failure; of a failure of the store only its kind is told. -/
def QueryError.message : QueryError → String
  | invalid fault => "Query validation error: " ++ fault.message
  | invalidDate text => "Invalid date: " ++ text
  | overflow => "attempt to subtract with overflow"
  | language fault => "Parse error: " ++ fault.message
  | storage => "Storage error"
  | unreachable => "IO error"

/-- Whether the request was refused before the store was touched. -/
def QueryError.isRefusal : QueryError → Bool
  | invalid _ | invalidDate _ | language _ => true
  | overflow | storage | unreachable => false

end GraphIndex
