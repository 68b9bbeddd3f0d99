import GraphIndex.Query.Error
import GraphIndex.Query.Field
import GraphIndex.Store.Datum

/-!
# The store

Three tables: nodes, the tags that nodes carry, and the values of their custom fields. A text column
holds a text or null; a column for integers may hold any value that cannot be brought into an
integer. Rows stay in the order in which they were entered.
-/

namespace GraphIndex

/-- A row of the table of nodes. -/
structure NodeRow where
  id : Option String
  name : Option String
  parentId : Option String
  nodeType : Option String
  created : Datum
  updated : Datum
  doneAt : Datum
  deriving DecidableEq, Repr, Inhabited

/-- A row of the table of tags: a node and a tag that it carries. -/
structure TagRow where
  node : String
  tag : String
  deriving DecidableEq, Repr, Inhabited

/-- A row of the table of field values: one value of one field of a node. -/
structure FieldRow where
  node : String
  field : String
  value : Option String
  /-- Where the value stands among the values of the field. -/
  order : Datum
  deriving DecidableEq, Repr, Inhabited

/-- The rows of the three tables. -/
structure Store where
  nodes : List NodeRow
  tags : List TagRow
  fields : List FieldRow
  deriving Repr, Inhabited

/-- A cell of a text column. -/
def Datum.ofText? : Option String → Datum
  | some s => .text s
  | none => .null

/-- A column of a node as a value. -/
def NodeRow.cell (r : NodeRow) : NodeColumn → Datum
  | .id => .ofText? r.id
  | .name => .ofText? r.name
  | .parentId => .ofText? r.parentId
  | .nodeType => .ofText? r.nodeType
  | .created => r.created
  | .updated => r.updated
  | .doneAt => r.doneAt

namespace Store

/-- The store without rows. -/
def empty : Store := ⟨[], [], []⟩

/-! ### Entering rows

A row is given as a list of cells, cells left out at its end being null. -/

/-- A cell of a row by its place. -/
def cellAt (cells : List Datum) (place : Nat) : Datum := cells.getD place .null

/-- The row of a node. -/
def nodeRow (cells : List Datum) : NodeRow where
  id := (cellAt cells 0).inTextColumn
  name := (cellAt cells 1).inTextColumn
  parentId := (cellAt cells 2).inTextColumn
  nodeType := (cellAt cells 3).inTextColumn
  created := (cellAt cells 4).inIntegerColumn
  updated := (cellAt cells 5).inIntegerColumn
  doneAt := (cellAt cells 6).inIntegerColumn

/-- Enters a node; a node with the same id is replaced. -/
def insertNode (s : Store) (cells : List Datum) : Store :=
  let row := nodeRow cells
  { s with nodes := s.nodes.filter (fun r => row.id.isNone || r.id != row.id) ++ [row] }

/-- Enters a tag of a node; neither may be null. -/
def insertTag? (s : Store) (cells : List Datum) : Option Store := do
  let node ← (cellAt cells 0).inTextColumn
  let tag ← (cellAt cells 1).inTextColumn
  return { s with tags := s.tags ++ [⟨node, tag⟩] }

/-- Enters a value of a field; neither the node nor the field may be null. -/
def insertField? (s : Store) (cells : List Datum) : Option Store := do
  let node ← (cellAt cells 0).inTextColumn
  let field ← (cellAt cells 1).inTextColumn
  let row := ⟨node, field, (cellAt cells 2).inTextColumn, (cellAt cells 3).inIntegerColumn⟩
  return { s with fields := s.fields ++ [row] }

end Store

/-- A place for a store, which may not have its tables yet. -/
structure Database where
  store? : Option Store
  deriving Repr, Inhabited

namespace Database

/-- A database without tables. -/
def blank : Database := ⟨none⟩

/-- A database with empty tables. -/
def withTables : Database := ⟨some .empty⟩

/-- Makes the tables unless they are there. -/
def ensureTables (db : Database) : Database := ⟨some (db.store?.getD .empty)⟩

/-- The tables, for statements that read them. -/
def store (db : Database) : Except QueryError Store :=
  match db.store? with
  | some s => .ok s
  | none => .error .storage

end Database

end GraphIndex
