import GraphIndex.Json.Decode
import GraphIndex.Json.Reader
import GraphIndex.Query.Basic

/-!
# Queries from JSON

Reads queries and aggregations from their JSON form, and what is accepted beside it: fields may be
left out where they have a default, unknown ones are passed over, a sort order may be a text, and
an array may give the fields of a query, a group or a clause in their order. A condition is tried as
a group first and then as a clause, a dimension as a period first and then as a field.
-/

namespace GraphIndex

/-! ### Values and conditions -/

/-- A truth value, a number or a text as the value of a condition. -/
def Operand.ofJson? : Json → Option Operand
  | .bool b => some (.bool b)
  | .number (.integer i) =>
    some (if fitsInt64 i then .integer (Int64.ofInt i) else .real (Binary64.ofInt i))
  | .number (.real x) => some (.real x)
  | .text s => some (.text s)
  | _ => none

/-- Reads a value of a condition. -/
def Operand.decode (j : Json) : Except DecodeError Operand :=
  if !j.isReadable then .error .notJson
  else
    match ofJson? j with
    | some v => .ok v
    | none => .error (.noVariant "QueryValue")

/-- The value of a clause; a clause without one asks for truth. -/
def Operand.ofMember? : Option Json → Option Operand
  | none => some (.bool true)
  | some j => ofJson? j

def Connective.ofJson? (j : Json) : Option Connective :=
  match j.variantName? with
  | some "and" => some .all
  | some "or" => some .any
  | _ => none

def Operator.ofJson? : Json → Option Operator
  | .text s => ofText? s
  | _ => none

/-- A clause from its fields; value and negation may be left out. -/
def Clause.ofFields? (field operator : Json) (value negated : Option Json) : Option Clause :=
  match field with
  | .text field => do
    let operator ← Operator.ofJson? operator
    let value ← Operand.ofMember? value
    let negated ← Json.flag? negated
    some ⟨field, operator, value, negated⟩
  | _ => none

def Clause.ofJson? : Json → Option Clause
  | .object members => do
    let field ← (← Json.unique? "field" members)
    let operator ← (← Json.unique? "operator" members)
    let value ← Json.unique? "value" members
    let negated ← Json.unique? "negated" members
    ofFields? field operator value negated
  | .array [field, operator] => ofFields? field operator none none
  | .array [field, operator, value] => ofFields? field operator (some value) none
  | .array [field, operator, value, negated] => ofFields? field operator (some value) (some negated)
  | _ => none

namespace Entry

/-- A group from its kind, its members as far as they were read, and its negation. -/
def groupOf? (kind : Json) (members : Option (List Entry)) (negated : Option Json) :
    Option Entry := do
  let kind ← Connective.ofJson? kind
  let members ← members
  let negated ← Json.flag? negated
  some (group kind members negated)

mutual

/-- A condition: a group if it can be read as one, otherwise a clause. -/
def ofJson? : Json → Option Entry
  | .object members =>
    (do
      let kind ← (← Json.unique? "type" members)
      -- The members are there once; they are found below, where the recursion can see them.
      let _ ← (← Json.unique? "clauses" members)
      let negated ← Json.unique? "negated" members
      groupOf? kind (membersOf? members) negated) <|> (Clause.ofJson? (.object members)).map clause
  | .array (kind :: members :: rest) =>
    (match rest with
      | [] => groupOf? kind (listOf? members) none
      | [negated] => groupOf? kind (listOf? members) (some negated)
      | _ => none) <|> (Clause.ofJson? (.array (kind :: members :: rest))).map clause
  | _ => none

/-- The members of a group, from the fields of an object. -/
def membersOf? : List (String × Json) → Option (List Entry)
  | [] => none
  | (k, j) :: rest => if k = "clauses" then listOf? j else membersOf? rest

/-- A list of conditions. -/
def listOf? : Json → Option (List Entry)
  | .array items => ofItems? items
  | _ => none

def ofItems? : List Json → Option (List Entry)
  | [] => some []
  | j :: rest => do
    let e ← ofJson? j
    let rest ← ofItems? rest
    some (e :: rest)

end

/-- Reads a condition. -/
def decode (j : Json) : Except DecodeError Entry :=
  if !j.isReadable then .error .notJson
  else
    match ofJson? j with
    | some e => .ok e
    | none => .error (.noVariant "WhereEntry")

/-- Reads a list of conditions. -/
def decodeList : Json → Except DecodeError (List Entry) := Json.decodeList decode

end Entry

/-! ### Queries -/

/-- A sort order: a text, or an object with a field and possibly a direction. -/
def SortKey.ofJson? : Json → Option SortKey
  | .text s => some (.ofText s)
  | .object members => do
    let field ← (← Json.unique? "field" members)
    let descending ← Json.flag? (← Json.unique? "desc" members)
    match field with
    | .text field => some ⟨field, descending⟩
    | _ => none
  | _ => none

def SortKey.decode (j : Json) : Except DecodeError SortKey :=
  if !j.isReadable then .error .notJson
  else
    match ofJson? j with
    | some k => .ok k
    | none => .error (.noVariant "OrderByRepr")

/-- The fields of a query that were met so far. -/
structure Query.Draft where
  find : Option String := none
  conditions : Option (List Entry) := none
  orderBy : Option (Option SortKey) := none
  select : Option (Option (List String)) := none
  limit : Option Int64 := none
  offset : Option Int64 := none

namespace Query

def decodeSelect : Json → Except DecodeError (Option (List String)) :=
  Json.decodeOption (Json.decodeList Json.decodeText)

/-- Takes one member of an object into a draft. -/
def Draft.take (d : Draft) (key : String) (j : Json) : Except DecodeError Draft :=
  match key with
  | "find" => do return { d with find := ← Json.decodeOnce key Json.decodeText j d.find }
  | "where" => do
    return { d with conditions := ← Json.decodeOnce key Entry.decodeList j d.conditions }
  | "orderBy" => do
    let k ← Json.decodeOnce key (Json.decodeOption SortKey.decode) j d.orderBy
    return { d with orderBy := k }
  | "select" => do return { d with select := ← Json.decodeOnce key decodeSelect j d.select }
  | "limit" => do return { d with limit := ← Json.decodeOnce key Json.decodeInt64 j d.limit }
  | "offset" => do return { d with offset := ← Json.decodeOnce key Json.decodeInt64 j d.offset }
  | _ => do
    Json.ignore j
    return d

/-- The query of a draft; only the target has no default. -/
def Draft.finish (d : Draft) : Except DecodeError Query := do
  let find ← Json.required "find" d.find
  return ⟨find, d.conditions.getD [], d.orderBy.getD none, d.select.getD none,
    d.limit.getD defaultLimit, d.offset.getD 0⟩

/-- The fields of a query in the order in which an array gives them. -/
def fieldNames : List String := ["find", "where", "orderBy", "select", "limit", "offset"]

/-- Reads a query. -/
def decode : Json → Except DecodeError Query
  | .object members => do
    let d ← members.foldlM (fun d (k, j) => Draft.take d k j) {}
    d.finish
  | .array [] => .error (.tooFewItems 0 "struct QueryAst with 6 elements")
  | .array items => do
    let d ← (fieldNames.zip items).foldlM (fun d (k, j) => Draft.take d k j) {}
    if fieldNames.length < items.length then .error (.tooManyItems items.length)
    else d.finish
  | j => Json.refuse j "struct QueryAst"

/-- Reads a query from a text. A fault before the place where the text stops being JSON is the one
that is reported. -/
def ofJsonText (depth : Nat) (s : String) : Except DecodeError Query :=
  let (j, rest) := Json.scanWithin depth s.toList
  match decode j with
  -- Items behind the last field are left in the text, so that it does not end as JSON.
  | .error (.tooManyItems _) => .error .notJson
  | .error e => .error e
  | .ok q => if Json.endsText rest then .ok q else .error .notJson

end Query

/-! ### Aggregations -/

/-- A dimension: a period if it can be read as one, otherwise a field. -/
def Dimension.ofJson? : Json → Option Dimension
  | .object members =>
    (do
      let period ← Period.ofName? (← Json.variantName? (← (← Json.unique? "period" members)))
      match ← Json.unique? "dateField" members with
      | none => some (.period period .created)
      | some j => some (.period period (← DateColumn.ofName? (← Json.variantName? j))))
    <|> (do
      match ← (← Json.unique? "field" members) with
      | .text name => some (.field name)
      | _ => none)
  | _ => none

def Dimension.decode (j : Json) : Except DecodeError Dimension :=
  if !j.isReadable then .error .notJson
  else
    match ofJson? j with
    | some d => .ok d
    | none => .error (.noVariant "GroupBySpec")

def AggregateFunction.ofName (s : String) : Except DecodeError AggregateFunction :=
  if s = "count" then .ok .count else .error (.unknownVariant s "count")

def AggregateFunction.decode : Json → Except DecodeError AggregateFunction
  | .text s => ofName s
  | .object [(s, j)] => do
    let f ← ofName s
    match j with
    | .null => return f
    | j => Json.refuse j "unit"
  | .object _ => .error .notOneKey
  | j => Json.refuse j "string or map"

/-- The fields of an aggregation that were met so far. -/
structure Aggregation.Draft where
  find : Option String := none
  dimensions : Option (List Dimension) := none
  conditions : Option (List Entry) := none
  functions : Option (List AggregateFunction) := none
  showPercent : Option Bool := none
  top : Option (Option Int64) := none
  limit : Option Int64 := none

namespace Aggregation

/-- Takes one member of an object into a draft. -/
def Draft.take (d : Draft) (key : String) (j : Json) : Except DecodeError Draft :=
  match key with
  | "find" => do return { d with find := ← Json.decodeOnce key Json.decodeText j d.find }
  | "groupBy" => do
    let ds ← Json.decodeOnce key (Json.decodeList Dimension.decode) j d.dimensions
    return { d with dimensions := ds }
  | "where" => do
    return { d with conditions := ← Json.decodeOnce key Entry.decodeList j d.conditions }
  | "aggregate" => do
    let fs ← Json.decodeOnce key (Json.decodeList AggregateFunction.decode) j d.functions
    return { d with functions := fs }
  | "showPercent" => do
    return { d with showPercent := ← Json.decodeOnce key Json.decodeBool j d.showPercent }
  | "top" => do
    return { d with top := ← Json.decodeOnce key (Json.decodeOption Json.decodeInt64) j d.top }
  | "limit" => do return { d with limit := ← Json.decodeOnce key Json.decodeInt64 j d.limit }
  | _ => do
    Json.ignore j
    return d

/-- The aggregation of a draft; target and dimensions have no default. -/
def Draft.finish (d : Draft) : Except DecodeError Aggregation := do
  let find ← Json.required "find" d.find
  let dimensions ← Json.required "groupBy" d.dimensions
  return ⟨find, dimensions, d.conditions.getD [], d.functions.getD [.count],
    d.showPercent.getD false, d.top.getD none, d.limit.getD defaultLimit⟩

/-- The fields of an aggregation in the order in which an array gives them. -/
def fieldNames : List String :=
  ["find", "groupBy", "where", "aggregate", "showPercent", "top", "limit"]

/-- Reads an aggregation. -/
def decode : Json → Except DecodeError Aggregation
  | .object members => do
    let d ← members.foldlM (fun d (k, j) => Draft.take d k j) {}
    d.finish
  | .array items => do
    let d ← (fieldNames.zip items).foldlM (fun d (k, j) => Draft.take d k j) {}
    if items.length < 2 then
      .error (.tooFewItems items.length "struct AggregateAst with 7 elements")
    else if fieldNames.length < items.length then .error (.tooManyItems items.length)
    else d.finish
  | j => Json.refuse j "struct AggregateAst"

/-- Reads an aggregation from a text. A fault before the place where the text stops being JSON is
the one that is reported. -/
def ofJsonText (depth : Nat) (s : String) : Except DecodeError Aggregation :=
  let (j, rest) := Json.scanWithin depth s.toList
  match decode j with
  -- Items behind the last field are left in the text, so that it does not end as JSON.
  | .error (.tooManyItems _) => .error .notJson
  | .error e => .error e
  | .ok a => if Json.endsText rest then .ok a else .error .notJson

end Aggregation

end GraphIndex
