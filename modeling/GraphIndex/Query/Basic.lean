import GraphIndex.Query.Entry
import GraphIndex.Query.Field
import GraphIndex.Text.Split

/-!
# Queries and aggregations

A query asks for nodes: those that carry a tag, narrowed by conditions, in some order, one page of
them. An aggregation asks how many such nodes fall into each group along one or two dimensions.
-/

namespace GraphIndex

/-- The page size where none is asked for. -/
def defaultLimit : Int64 := 100

/-- The target that stands for every node. -/
def anyNode : String := "*"

/-- Whether a target stands for every node instead of the holders of a tag. -/
def targetsAllNodes (find : String) : Bool := find == anyNode

/-- A sort order. -/
structure SortKey where
  field : String
  descending : Bool
  deriving DecidableEq, Repr, Inhabited

namespace SortKey

/-- Reads a field name, or a field name after a minus sign for descending order. -/
def ofText (s : String) : SortKey :=
  match Text.trimList s.toList with
  | '-' :: field => ⟨.ofList field, true⟩
  | field => ⟨.ofList field, false⟩

/-- The newest nodes first. -/
def newestFirst : SortKey := ⟨"created", true⟩

end SortKey

/-- A query for nodes. -/
structure Query where
  /-- A tag, or the target that stands for every node. -/
  find : String
  /-- All of them must hold. -/
  conditions : List Entry
  orderBy : Option SortKey
  /-- The custom fields to show; a single `*` stands for all of them. -/
  select : Option (List String)
  limit : Int64
  offset : Int64
  deriving Repr, Inhabited

namespace Query

/-- The query for the nodes of a target, and nothing else. -/
def forTarget (find : String) : Query := ⟨find, [], none, none, defaultLimit, 0⟩

/-- Equality by value. -/
def sameValue (q r : Query) : Bool :=
  q.find == r.find && Entry.sameValues q.conditions r.conditions && q.orderBy == r.orderBy
    && q.select == r.select && q.limit == r.limit && q.offset == r.offset

end Query

/-- The spans of time by which nodes are grouped. -/
inductive Period where
  | day
  | week
  | month
  | quarter
  | year
  deriving DecidableEq, Repr, Inhabited

namespace Period

def name : Period → String
  | day => "day"
  | week => "week"
  | month => "month"
  | quarter => "quarter"
  | year => "year"

/-- The period of an exact name. -/
def ofName? : String → Option Period
  | "day" => some day
  | "week" => some week
  | "month" => some month
  | "quarter" => some quarter
  | "year" => some year
  | _ => none

/-- The period that a text names, in any letter case. -/
def ofText? (s : String) : Option Period := ofName? (Text.lowercase (Text.trim s))

theorem ofName?_name (p : Period) : ofName? p.name = some p := by cases p <;> rfl

end Period

/-- The columns by whose time nodes are grouped. -/
inductive DateColumn where
  | created
  | updated
  deriving DecidableEq, Repr, Inhabited

namespace DateColumn

def column : DateColumn → NodeColumn
  | created => .created
  | updated => .updated

def name : DateColumn → String
  | created => "created"
  | updated => "updated"

def ofName? : String → Option DateColumn
  | "created" => some created
  | "updated" => some updated
  | _ => none

theorem ofName?_name (c : DateColumn) : ofName? c.name = some c := by cases c <;> rfl

end DateColumn

/-- One dimension along which nodes are grouped. -/
inductive Dimension where
  | period (period : Period) (column : DateColumn)
  | field (name : String)
  deriving DecidableEq, Repr, Inhabited

namespace Dimension

/-- The dimension that one word names: a period of the creation time, or else a field. -/
def ofWord (word : String) : Dimension :=
  match Period.ofText? word with
  | some p => period p .created
  | none => field word

/-- Reads dimensions separated by commas; blanks around them and empty ones are dropped. -/
def listOfText (s : String) : List Dimension :=
  let words := (Text.splitOn ',' s.toList).map Text.trimList
  (words.filter fun w => !w.isEmpty).map fun w => ofWord (.ofList w)

/-- The text of a dimension. -/
def toText : Dimension → String
  | period p c => p.name ++ "(" ++ c.name ++ ")"
  | field name => name

end Dimension

/-- What is computed of a group: its size. -/
inductive AggregateFunction where
  | count
  deriving DecidableEq, Repr, Inhabited

/-- A request to count nodes in groups. -/
structure Aggregation where
  find : String
  dimensions : List Dimension
  conditions : List Entry
  functions : List AggregateFunction
  showPercent : Bool
  /-- How many of the largest groups to keep. -/
  top : Option Int64
  limit : Int64
  deriving Repr, Inhabited

namespace Aggregation

/-- The request to group the nodes of a target, and nothing else. -/
def along (find : String) (dimensions : List Dimension) : Aggregation :=
  ⟨find, dimensions, [], [.count], false, none, defaultLimit⟩

/-- How many groups may be shown. -/
def cap (a : Aggregation) : Int64 := a.top.getD a.limit

/-- Equality by value. -/
def sameValue (a b : Aggregation) : Bool :=
  a.find == b.find && a.dimensions == b.dimensions && Entry.sameValues a.conditions b.conditions
    && a.functions == b.functions && a.showPercent == b.showPercent && a.top == b.top
    && a.limit == b.limit

end Aggregation

end GraphIndex
