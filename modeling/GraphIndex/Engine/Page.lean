import GraphIndex.Engine.Fields
import GraphIndex.Plan.Page
import GraphIndex.Query.Resolve

/-!
# Answers to queries

`Query.run` checks a query, settles its dates, makes its statement, and reads the page that the
statement answers. Faults of the query come before any look at the store.
-/

namespace GraphIndex

/-- A node as an answer shows it. -/
structure Node where
  id : String
  name : Option String
  parentId : Option String
  nodeType : Option String
  created : Option Int64
  updated : Option Int64
  doneAt : Option Int64
  /-- The values of the selected fields, in the order of the field names. -/
  fields : Option (List (String × String))
  deriving DecidableEq, Repr, Inhabited

/-- A point in time or null; nothing else can be read as one. -/
def Datum.instant? : Datum → Except QueryError (Option Int64)
  | null => .ok none
  | integer i => .ok (some i)
  | _ => .error .storage

/-- Reads the row of a node; it has to have an id. -/
def Node.ofRow (r : NodeRow) : Except QueryError Node :=
  match r.id with
  | none => .error .storage
  | some id => do
    let created ← r.created.instant?
    let updated ← r.updated.instant?
    let doneAt ← r.doneAt.instant?
    return ⟨id, r.name, r.parentId, r.nodeType, created, updated, doneAt, none⟩

/-- Reads the rows of nodes. -/
def Node.ofRows : List NodeRow → Except QueryError (List Node)
  | [] => .ok []
  | r :: rest => do
    let node ← Node.ofRow r
    let nodes ← Node.ofRows rest
    return node :: nodes

/-- The answer to a query. -/
structure Page where
  nodes : List Node
  /-- Whether the page is full, so that more nodes may exist. -/
  hasMore : Bool
  /-- The fields shown, if the query selects some. -/
  fieldNames : Option (List String)
  deriving DecidableEq, Repr, Inhabited

/-- The store, for a statement that it accepts. -/
def Database.storeFor (db : Database) (s : Statement) : Except QueryError Store := do
  let store ← db.store
  if s.IsAccepted then return store else throw .storage

/-- The select list that stands for all fields. -/
def selectsAll (select : List String) : Bool := select == [anyNode]

/-- The names of the selected fields. -/
def selectedFields (source : FieldSource) (find : String) (select : List String) :
    Except QueryError (List String) :=
  if selectsAll select then source.fieldsOfTag find else .ok select

/-- The values of a node, in the order of the field names. -/
def Node.withFields (values : FieldTable) (n : Node) : Node :=
  { n with fields := some (((values.get? n.id).getD []).mergeSort
      fun a b => Datum.textOrder a.1 b.1 != .gt) }

namespace Page

/-- The page of nodes without field values. -/
def ofNodes (limit : Int64) (nodes : List Node) : Page :=
  ⟨nodes, (nodes.length : Int) == limit.toInt, none⟩

/-- The page with the values of the selected fields. -/
def withFields (source : FieldSource) (find : String) (select : List String) (p : Page) :
    Except QueryError Page := do
  let names ← selectedFields source find select
  let values ← source.values (p.nodes.map (·.id)) names
  return { p with nodes := p.nodes.map (Node.withFields values), fieldNames := some names }

end Page

namespace Query

/-- The statement of a query at a given time. -/
def plan (now : Int) (q : Query) : Except QueryError PageStatement := do
  q.check.mapError .invalid
  let q ← q.resolve now
  q.statement.mapError .invalid

/-- The nodes that a statement answers. -/
def read (db : Database) (s : PageStatement) : Except QueryError (List Node) := do
  let store ← db.storeFor (.page s)
  Node.ofRows (s.page store)

/-- The answer to a query at a given time. -/
def run (db : Database) (source : FieldSource) (now : Int) (q : Query) :
    Except QueryError Page := do
  let statement ← q.plan now
  let nodes ← read db statement
  let page := Page.ofNodes q.limit nodes
  match q.select with
  | none => return page
  | some select => page.withFields source q.find select

end Query

end GraphIndex
