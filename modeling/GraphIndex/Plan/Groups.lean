import GraphIndex.Plan.Page

/-!
# Aggregations as statements

`Aggregation.statement` turns an aggregation into the statement for its groups. The number of all
nodes is asked for apart, by counting the selection without the dimensions.
-/

namespace GraphIndex

/-- Refuses an aggregation without target, with a number of dimensions other than one or two, or
with a limit below one. -/
def Aggregation.check (a : Aggregation) : Except Fault Unit := do
  checkTarget a.find
  if a.dimensions.length = 0 ∨ 2 < a.dimensions.length then
    .error (.wrongDimensionCount a.dimensions.length)
  checkLimit a.limit
  match a.top with
  | some top => if top < 1 then .error (.topTooSmall top)
  | none => .ok ()

/-- The key of nodes without a value. -/
def noneKey : String := "(none)"

/-- The date of a column that holds milliseconds. -/
def dateExpr (format : List DatePart) (column : DateColumn) : Expr :=
  .date format (.divide (nodeColumn column.column) (.number 1000))

/-- The text of the period in which a column falls. -/
def Period.expr (p : Period) (column : DateColumn) : Expr :=
  match p with
  | day => dateExpr [.year, .char '-', .month, .char '-', .day] column
  | week => dateExpr [.year, .char '-', .char 'W', .week] column
  | month => dateExpr [.year, .char '-', .month] column
  | year => dateExpr [.year] column
  | quarter =>
    let month := (dateExpr [.month] column).cast .integer
    let number := Expr.divide (.parens (.plus month (.number 2))) (.number 3)
    .concat (.concat (dateExpr [.year] column) (.quoted "-Q")) (.parens number)

/-- The key of a dimension, and the joins that it needs. -/
structure GroupKey where
  expr : Expr
  joins : List Join
  deriving Repr

/-- A key that stands for null as well. -/
def GroupKey.of (e : Expr) (joins : List Join) : GroupKey := ⟨.orText e noneKey, joins⟩

/-- The key of a dimension; `place` is its place among the dimensions. -/
def Dimension.key (place : Nat) : Dimension → Except Fault GroupKey
  | period p column => .ok (.of (p.expr column) [])
  | field name =>
    let row := Alias.dimension place
    match Route.ofField name with
    | .error fault => .error (.route fault)
    | .ok (.column c) => .ok (.of (.cast (nodeColumn c) .text) [])
    | .ok .parentName => .ok (.of (.column .parent (.node .name)) [parentJoin])
    | .ok .parentTags => .ok (.of (.column row .tagName) [parentJoin, parentTagJoin row])
    | .ok (.custom name) => .ok (.of (.column row .fieldValue) [fieldJoin row name])

/-- The keys of dimensions from a place on. -/
def Dimension.keys (place : Nat) : List Dimension → Except Fault (List GroupKey)
  | [] => .ok []
  | d :: rest => do
    let key ← d.key place
    let keys ← Dimension.keys (place + 1) rest
    return key :: keys

/-- The number after `n`, as far as sixty-four bits go. -/
def successor (n : Int64) : Int64 := if n = Int64.maxValue then n else n + 1

/-- The statement for the groups of an aggregation: one more than may be shown, so that it can be
told whether more exist. -/
def Aggregation.statement (a : Aggregation) : Except Fault GroupStatement := do
  let selection ← Selection.of a.find a.conditions
  let keys ← Dimension.keys 0 a.dimensions
  let joins := selection.joins.insertAll (keys.flatMap GroupKey.joins)
  return ⟨{ selection with joins := joins }, keys.map GroupKey.expr, successor a.cap⟩

end GraphIndex
