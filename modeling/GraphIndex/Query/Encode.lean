import GraphIndex.Json.Writer
import GraphIndex.Query.Basic

/-!
# Queries as JSON

The JSON form of queries and aggregations. The fields of an object stand in a fixed order and a
condition says that it is negated only when it is.
-/

namespace GraphIndex

namespace Operand

/-- A value of a condition stands for itself. -/
def toJson : Operand → Json
  | bool b => .bool b
  | integer i => .ofInt i.toInt
  | real x => .number (.real x)
  | text s => .text s

end Operand

/-- The name of a connective in JSON. -/
def Connective.name : Connective → String
  | .all => "and"
  | .any => "or"

/-- The member that says that a condition is negated, if it is. -/
def negationMember (negated : Bool) : List (String × Json) :=
  if negated then [("negated", .bool true)] else []

def Clause.toJson (c : Clause) : Json :=
  .object ([("field", .text c.field), ("operator", .text c.operator.symbol),
    ("value", c.value.toJson)] ++ negationMember c.negated)

namespace Entry

mutual

def toJson : Entry → Json
  | clause c => c.toJson
  | group kind members negated =>
    .object ([("type", .text kind.name), ("clauses", .array (listToJson members))]
      ++ negationMember negated)

def listToJson : List Entry → List Json
  | [] => []
  | e :: rest => e.toJson :: listToJson rest

end

end Entry

def SortKey.toJson (k : SortKey) : Json :=
  .object [("field", .text k.field), ("desc", .bool k.descending)]

/-- A value that may be absent; null stands for its absence. -/
def optionJson {α : Type} (value : α → Json) : Option α → Json
  | none => .null
  | some a => value a

def Query.toJson (q : Query) : Json :=
  .object [("find", .text q.find),
    ("where", .array (Entry.listToJson q.conditions)),
    ("orderBy", optionJson SortKey.toJson q.orderBy),
    ("select", optionJson (fun names => .array (names.map .text)) q.select),
    ("limit", .ofInt q.limit.toInt),
    ("offset", .ofInt q.offset.toInt)]

def Dimension.toJson : Dimension → Json
  | .period p c => .object [("period", .text p.name), ("dateField", .text c.name)]
  | .field name => .object [("field", .text name)]

def AggregateFunction.toJson : AggregateFunction → Json
  | .count => .text "count"

def Aggregation.toJson (a : Aggregation) : Json :=
  .object [("find", .text a.find),
    ("groupBy", .array (a.dimensions.map Dimension.toJson)),
    ("where", .array (Entry.listToJson a.conditions)),
    ("aggregate", .array (a.functions.map AggregateFunction.toJson)),
    ("showPercent", .bool a.showPercent),
    ("top", optionJson (fun n => .ofInt n.toInt) a.top),
    ("limit", .ofInt a.limit.toInt)]

end GraphIndex
