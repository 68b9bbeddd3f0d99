import GraphIndex.Plan.Filter
import GraphIndex.Query.Basic

/-!
# Queries as statements

`Query.statement` turns a query into the statement for its page. What is wrong with a query is found
here or before: `Query.check` refuses requests that cannot be meant.
-/

namespace GraphIndex

/-- Refuses a target that is blank. -/
def checkTarget (find : String) : Except Fault Unit :=
  if Text.isBlankText find then .error .missingTarget else .ok ()

/-- Refuses a limit below one. -/
def checkLimit (limit : Int64) : Except Fault Unit :=
  if limit < 1 then .error (.limitTooSmall limit) else .ok ()

/-- Refuses a query without target, with a limit below one or with a negative offset. -/
def Query.check (q : Query) : Except Fault Unit := do
  checkTarget q.find
  checkLimit q.limit
  if q.offset < 0 then .error (.negativeOffset q.offset)

/-- The joins of a target: its tag, unless every node is asked for. -/
def targetJoins (find : String) : JoinSet :=
  if targetsAllNodes find then .empty else .ofList [tagJoin find]

/-- The nodes of a target that meet all conditions. -/
def Selection.of (find : String) (conditions : List Entry) : Except Fault Selection := do
  let f ← Filter.ofEntries conditions
  return ⟨(targetJoins find).union f.joins, f.conditions⟩

/-- What the nodes are sorted by for a field name. -/
def SortTerm.ofField (field : String) : Except Fault SortTerm :=
  match Route.ofField field with
  | .error fault => .error (.route fault)
  | .ok (.column c) => .ok (column c)
  | .ok .parentName => .ok parentName
  | .ok .parentTags => .error .orderByParentTags
  | .ok (.custom name) => .ok (SortTerm.field name)

/-- The order of a query: the one asked for, or the newest nodes first. -/
def Query.sortKey (q : Query) : SortKey := q.orderBy.getD .newestFirst

/-- The statement for the page of a query. -/
def Query.statement (q : Query) : Except Fault PageStatement := do
  let selection ← Selection.of q.find q.conditions
  let term ← SortTerm.ofField q.sortKey.field
  return ⟨selection, term, q.sortKey.descending, q.limit, q.offset⟩

end GraphIndex
