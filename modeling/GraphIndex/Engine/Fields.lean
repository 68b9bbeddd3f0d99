import GraphIndex.Query.Basic
import GraphIndex.Statement.Limits
import GraphIndex.Statement.Meaning

/-!
# Values of custom fields

Where a query selects fields, the values of the nodes on its page are looked up. `FieldSource` says
what is needed for that; `Database.fieldSource` looks into the table of field values, for so many
nodes at a time that a statement binds few values. The names of the fields are all bound at once,
and `Database.fieldResolver` refuses a statement that binds too many.
-/

namespace GraphIndex

/-- The values of fields: of a node, of a field. Both have one entry each. -/
structure FieldTable where
  entries : List (String × List (String × String))
  deriving DecidableEq, Repr, Inhabited

/-- What stands between several values of a field. -/
def valueSeparator : String := ", "

/-- Enters a value under a key, behind a value that is there already. -/
def enterValue (key value : String) : List (String × String) → List (String × String)
  | [] => [(key, value)]
  | (k, v) :: rest =>
    if k = key then (k, v ++ valueSeparator ++ value) :: rest
    else (k, v) :: enterValue key value rest

namespace FieldTable

def empty : FieldTable := ⟨[]⟩

/-- The fields of a node. -/
def get? (t : FieldTable) (node : String) : Option (List (String × String)) := t.entries.lookup node

/-- Enters a value of a field of a node. -/
def enterIn (node field value : String) :
    List (String × List (String × String)) → List (String × List (String × String))
  | [] => [(node, [(field, value)])]
  | (n, vs) :: rest =>
    if n = node then (n, enterValue field value vs) :: rest
    else (n, vs) :: enterIn node field value rest

/-- Adds the value of a row; a row without one adds nothing. -/
def add (t : FieldTable) (r : FieldRow) : FieldTable :=
  match r.value with
  | some value => ⟨enterIn r.node r.field value t.entries⟩
  | none => t

/-- The values of rows in their order. -/
def ofRows (rows : List FieldRow) : FieldTable := rows.foldl add empty

end FieldTable

/-- A place where the values of fields are looked up. -/
structure FieldSource where
  /-- The values of fields, for nodes and fields by name. -/
  values : (nodes fields : List String) → Except QueryError FieldTable
  /-- The fields that a tag has. -/
  fieldsOfTag : String → Except QueryError (List String)

/-- Sorts texts by their bytes. -/
def sortTexts (texts : List String) : List String :=
  texts.mergeSort fun s t => Datum.textOrder s t != .gt

/-- Cuts a list into parts of `size` members, the last of which may be shorter. -/
def chunks {α : Type} (size : Nat) : List α → List (List α)
  | [] => []
  | a :: rest => (a :: rest.take (size - 1)) :: chunks size (rest.drop (size - 1))
termination_by as => as.length
decreasing_by simp only [List.length_drop, List.length_cons]; omega

/-- How many values one statement binds. -/
def boundValues : Nat := 500

/-- How many nodes are looked up at a time: at least one. -/
def chunkSize (fields : List String) : Nat := max (boundValues - fields.length) 1

namespace Store

/-- The order of the rows of field values: by node, by field, by place. -/
def fieldOrder (r r' : FieldRow) : Ordering :=
  ((Datum.textOrder r.node r'.node).then (Datum.textOrder r.field r'.field)).then
    (r.order.order r'.order)

/-- The rows that hold a value of one of the fields of one of the nodes, in order. -/
def fieldRows (s : Store) (nodes fields : List String) : List FieldRow :=
  (s.fields.filter fun r =>
    nodes.contains r.node && fields.contains r.field && r.value.isSome).mergeSort
      fun r r' => fieldOrder r r' != .gt

/-- The values of fields of nodes, looked up `size` nodes at a time. -/
def fieldValues (s : Store) (size : Nat) (nodes fields : List String) : FieldTable :=
  .ofRows ((chunks size nodes).flatMap fun part => s.fieldRows part fields)

/-- The fields of the nodes that carry a tag; every field there is for the target of all nodes. -/
def fieldsOfTag (s : Store) (tag : String) : List String :=
  let rows :=
    if targetsAllNodes tag then s.fields
    else s.fields.filter fun r => s.tags.any fun t => t.node == r.node && t.tag == tag
  sortTexts (distinct (rows.map (·.field)))

end Store

/-- Whether the statements for nodes and fields do not bind too many values. -/
def isBindable (nodes fields : List String) : Bool :=
  (chunks (chunkSize fields) nodes).all fun part =>
    decide (part.length + fields.length ≤ bindingLimit)

namespace Database

/-- The field values of a database, however many values a statement binds. Without nodes or without
fields nothing is looked up. -/
def fieldSource (db : Database) : FieldSource where
  values nodes fields := do
    if nodes.isEmpty || fields.isEmpty then return .empty
    let store ← db.store
    return store.fieldValues (chunkSize fields) nodes fields
  fieldsOfTag tag := do
    let store ← db.store
    return store.fieldsOfTag tag

/-- The field values of a database, as far as its statements can bind the nodes and the fields. -/
def fieldResolver (db : Database) : FieldSource where
  values nodes fields :=
    if isBindable nodes fields then db.fieldSource.values nodes fields else .error .storage
  fieldsOfTag := db.fieldSource.fieldsOfTag

end Database

end GraphIndex
