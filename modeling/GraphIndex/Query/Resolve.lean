import GraphIndex.Query.Basic
import GraphIndex.Query.Moment

/-!
# Dates of a request

Before a request becomes a statement its dates become points in time. A value that is compared with
a date column has to denote one; any other value is read as a date only if it looks like one. Tests
for presence and absence keep their values.
-/

namespace GraphIndex

/-- Whether a field name addresses a date column. -/
def isDateField (field : String) : Bool :=
  match NodeColumn.ofField? field with
  | some c => c.isDate
  | none => false

namespace Clause

/-- The clause with its date as a point in time. -/
def resolve (now : Int) (c : Clause) : Except QueryError Clause :=
  if c.operator.isExistenceTest then .ok c
  else if isDateField c.field then do
    let ms ← Moment.ofOperand now c.value
    return { c with value := .integer ms }
  else
    match c.value with
    | .text s =>
      if Moment.looksLikeDate s then do
        let ms ← Moment.ofText now s
        return { c with value := .integer ms }
      else .ok c
    | _ => .ok c

end Clause

/-- The entries with their dates as points in time. -/
def Entry.resolveAll (now : Int) (es : List Entry) : Except QueryError (List Entry) :=
  Entry.mapClausesAll (Clause.resolve now) es

/-- The query with its dates as points in time. -/
def Query.resolve (now : Int) (q : Query) : Except QueryError Query := do
  let conditions ← Entry.resolveAll now q.conditions
  return { q with conditions := conditions }

/-- The aggregation with its dates as points in time. -/
def Aggregation.resolve (now : Int) (a : Aggregation) : Except QueryError Aggregation := do
  let conditions ← Entry.resolveAll now a.conditions
  return { a with conditions := conditions }

end GraphIndex
