import GraphIndex.Json.Reader
import GraphIndex.Json.Writer
import GraphIndex.Store.Folder

/-!
# Stores as JSON

A store as a JSON object with a list of rows for each table, a row being the list of its cells.
Reading enters the rows in their order, so that a later node replaces an earlier one with its id.
-/

namespace GraphIndex

/-- The cell that a JSON value stands for; truth values are stored as one and zero. -/
def Datum.ofJson? : Json → Option Datum
  | .null => some .null
  | .bool b => some (.integer (if b then 1 else 0))
  | .number (.integer i) =>
    some (if fitsInt64 i then .integer (Int64.ofInt i) else .real (.ofInt i))
  | .number (.real x) => some (.real x)
  | .text s => some (.text s)
  | _ => none

/-- A cell as a JSON value. -/
def Datum.toJson : Datum → Json
  | .null => .null
  | .integer i => .ofInt i.toInt
  | .real x => .number (.real x)
  | .text s => .text s

/-- The cells of a row. -/
def rowOfJson? : Json → Option (List Datum)
  | .array cells => cells.mapM Datum.ofJson?
  | _ => none

/-- The rows of a table; a table that is left out has none. -/
def rowsOfJson? (j : Json) (table : String) : Option (List (List Datum)) :=
  match j.member? table with
  | none | some .null => some []
  | some (.array rows) => rows.mapM rowOfJson?
  | some _ => none

namespace Store

/-- A JSON object of the rows of the tables. -/
def ofJson? (j : Json) : Option Store := do
  let nodes ← rowsOfJson? j "nodes"
  let tags ← rowsOfJson? j "tags"
  let fields ← rowsOfJson? j "fields"
  let s := nodes.foldl insertNode .empty
  let s ← tags.foldlM insertTag? s
  fields.foldlM insertField? s

/-- The columns of a row of the table of tags. -/
def tagCells (r : TagRow) : List Datum := [.text r.node, .text r.tag]

/-- The columns of a row of the table of field values. -/
def fieldCells (r : FieldRow) : List Datum :=
  [.text r.node, .text r.field, .ofText? r.value, r.order]

def rowToJson (cells : List Datum) : Json := .array (cells.map Datum.toJson)

def toJson (s : Store) : Json :=
  .object [
    ("nodes", .array (s.nodes.map fun r => rowToJson (NodeColumn.all.map r.cell))),
    ("tags", .array (s.tags.map fun r => rowToJson (tagCells r))),
    ("fields", .array (s.fields.map fun r => rowToJson (fieldCells r)))]

end Store

/-! ### Databases as files -/

/-- The text of a database; one without tables has none. -/
def Database.encode (db : Database) : String :=
  match db.store? with
  | some s => s.toJson.write
  | none => ""

/-- The content of a file in which a database is expected. -/
def FileContent.decode (text : String) : FileContent :=
  match (Json.read? text).bind fun j => Store.ofJson? j.sorted with
  | some s => .database ⟨some s⟩
  | none => .text text

end GraphIndex
