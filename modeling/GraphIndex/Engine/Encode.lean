import GraphIndex.Engine.Groups
import GraphIndex.Query.Encode

/-!
# Answers as JSON

The JSON form of pages and tallies. Members that an answer does not have are left out.
-/

namespace GraphIndex

/-- A text, or null. -/
def textJson (s : Option String) : Json := optionJson .text s

/-- A point in time, or null. -/
def instantJson (ms : Option Int64) : Json := optionJson (fun i => .ofInt i.toInt) ms

/-- Texts under their keys. -/
def textsJson (values : List (String × String)) : Json :=
  .object (values.map fun (k, v) => (k, .text v))

/-- Counts under their keys. -/
def Counts.toJson (cs : Counts) : Json := .object (cs.map fun (k, n) => (k, .ofInt n))

/-- A member that is left out if there is no value. -/
def memberOf {α : Type} (key : String) (value : α → Json) (a : Option α) : List (String × Json) :=
  match a with
  | some a => [(key, value a)]
  | none => []

def Node.toJson (n : Node) : Json :=
  .object ([("id", .text n.id), ("name", textJson n.name), ("parentId", textJson n.parentId),
    ("nodeType", textJson n.nodeType), ("created", instantJson n.created),
    ("updated", instantJson n.updated), ("doneAt", instantJson n.doneAt)]
    ++ memberOf "fields" textsJson n.fields)

/-- A list of texts. -/
def namesJson (names : List String) : Json := .array (names.map .text)

def Page.toJson (p : Page) : Json :=
  .object ([("results", .array (p.nodes.map Node.toJson)), ("count", .ofInt p.nodes.length),
    ("hasMore", .bool p.hasMore)] ++ memberOf "fieldNames" namesJson p.fieldNames)

def Groups.toJson : Groups → Json
  | flat cs => cs.toJson
  | nested table => .object (table.map fun (k, cs) => (k, cs.toJson))

def Tally.toJson (t : Tally) : Json :=
  .object ([("total", .ofInt t.total), ("groupCount", .ofInt t.groups.size),
    ("groups", t.groups.toJson)] ++ memberOf "percentages" Counts.toJson t.percentages
    ++ memberOf "warning" (fun cap => .text (Tally.warning cap)) t.truncatedAt)

end GraphIndex
