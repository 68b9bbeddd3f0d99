import GraphIndex.Text.Blank

/-!
# Fields

A field name leads along exactly one route: to a column of the node, to an attribute of the parent
node, or to a custom field. `Route.ofField` finds it.
-/

namespace GraphIndex

/-- The columns of a node. -/
inductive NodeColumn where
  | id
  | name
  | created
  | updated
  | parentId
  | nodeType
  | doneAt
  deriving DecidableEq, Repr, Inhabited

namespace NodeColumn

/-- The field name under which a column is addressed. -/
def fieldName : NodeColumn → String
  | id => "id"
  | name => "name"
  | created => "created"
  | updated => "updated"
  | parentId => "parentId"
  | nodeType => "nodeType"
  | doneAt => "doneAt"

/-- The name of a column in the store. -/
def columnName : NodeColumn → String
  | id => "id"
  | name => "name"
  | created => "created"
  | updated => "updated"
  | parentId => "parent_id"
  | nodeType => "node_type"
  | doneAt => "done_at"

/-- Whether a column holds a point in time. -/
def isDate : NodeColumn → Bool
  | created | updated | doneAt => true
  | _ => false

/-- The column that a field name addresses; letter case counts. -/
def ofField? : String → Option NodeColumn
  | "id" => some id
  | "name" => some name
  | "created" => some created
  | "updated" => some updated
  | "parentId" => some parentId
  | "nodeType" => some nodeType
  | "doneAt" => some doneAt
  | _ => none

theorem ofField?_fieldName (c : NodeColumn) : ofField? c.fieldName = some c := by
  cases c <;> rfl

/-- The columns in the order in which a row lists them. -/
def all : List NodeColumn := [id, name, parentId, nodeType, created, updated, doneAt]

end NodeColumn

/-- Where a field name leads. -/
inductive Route where
  | column (column : NodeColumn)
  /-- The name of the parent node. -/
  | parentName
  /-- The tags of the parent node. -/
  | parentTags
  | custom (field : String)
  deriving DecidableEq, Repr, Inhabited

/-- Why a field name leads nowhere. -/
inductive RouteFault where
  | unknownParentField (field : String)
  | emptyName
  deriving DecidableEq, Repr

/-- What a field of the parent node starts with. -/
def parentMark : List Char := "parent.".toList

/-- The route of a field name. -/
def Route.ofField (field : String) : Except RouteFault Route :=
  if parentMark.isPrefixOf field.toList then
    if field = "parent.name" then .ok parentName
    else if field = "parent.tags" then .ok parentTags
    else .error (.unknownParentField field)
  else
    match NodeColumn.ofField? field with
    | some c => .ok (column c)
    | none => if Text.isBlankText field then .error .emptyName else .ok (custom field)

end GraphIndex
