import GraphIndex.Engine.Page
import GraphIndex.Plan.Groups

/-!
# Answers to aggregations

`Aggregation.run` counts the nodes of a request in groups along one or two dimensions. The total is
counted apart from the groups, for a node may fall into several of them.
-/

namespace GraphIndex

/-- Keys with their counts, in the order of the answer. -/
abbrev Counts := List (String × Int)

namespace Counts

/-- The sum of all counts. -/
def sum (cs : Counts) : Int := (cs.map (·.2)).foldr (· + ·) 0

/-- The count of a key. -/
def get? (cs : Counts) (key : String) : Option Int := cs.lookup key

end Counts

/-- Groups along one dimension, or along two. -/
inductive Groups where
  | flat (counts : Counts)
  /-- Outer keys in the order in which they turn up, each with its inner keys. -/
  | nested (counts : List (String × Counts))
  deriving DecidableEq, Repr, Inhabited

namespace Groups

/-- Enters a count under an outer and an inner key. -/
def enter (outer inner : String) (count : Int) :
    List (String × Counts) → List (String × Counts)
  | [] => [(outer, [(inner, count)])]
  | (k, cs) :: rest =>
    if k = outer then (k, cs ++ [(inner, count)]) :: rest
    else (k, cs) :: enter outer inner count rest

/-- The counts of rows with one key. -/
def flatOf (rows : List GroupRow) : Counts :=
  rows.map fun g => (g.keys.headD noneKey, (g.count : Int))

/-- The counts of rows with two keys. -/
def nestedOf (rows : List GroupRow) : List (String × Counts) :=
  rows.foldl (fun table g =>
    enter (g.keys.headD noneKey) ((g.keys.drop 1).headD noneKey) g.count table) []

/-- The groups of rows with so many keys. -/
def ofRows (dimensions : Nat) (rows : List GroupRow) : Groups :=
  if dimensions = 1 then flat (flatOf rows) else nested (nestedOf rows)

/-- How many groups there are, pairs of keys along two dimensions. -/
def size : Groups → Nat
  | flat cs => cs.length
  | nested table => (table.map (·.2.length)).foldr (· + ·) 0

end Groups

/-- The answer to an aggregation. -/
structure Tally where
  /-- How many nodes there are, whatever groups they fall into. -/
  total : Int
  groups : Groups
  /-- The share of each group, for one dimension only. -/
  percentages : Option Counts
  /-- How many groups are shown, if more exist. -/
  truncatedAt : Option Int64
  deriving DecidableEq, Repr, Inhabited

namespace Tally

/-- The nearest integer to a double that is not negative, a half going up. -/
def roundUp (x : Binary64) : Int := (2 * x.numerator + x.denominator) / (2 * x.denominator)

/-- A count in percent of the total. -/
def percentage (total count : Int) : Int :=
  if 0 < total then roundUp (.ofInt count / .ofInt total * .ofInt 100) else 0

def percentagesOf (total : Int) (cs : Counts) : Counts :=
  cs.map fun (key, count) => (key, percentage total count)

/-- What is said if more groups exist than are shown. -/
def warning (cap : Int64) : String :=
  "Showing top " ++ toString cap.toInt ++ " groups only; more groups exist beyond this limit"

/-- The tally of the groups that a statement answers: of one more than the cap only the first are
shown. -/
def ofRows (a : Aggregation) (total : Nat) (rows : List GroupRow) : Tally :=
  let truncated := decide (a.cap.toInt < rows.length)
  let shown := if truncated then rows.take a.cap.toInt.toNat else rows
  let groups := Groups.ofRows a.dimensions.length shown
  let percentages := match groups with
    | .flat cs => if a.showPercent then some (percentagesOf total cs) else none
    | .nested _ => none
  ⟨total, groups, percentages, if truncated then some a.cap else none⟩

end Tally

namespace Aggregation

/-- The aggregation with its dates settled and the statement for its groups. -/
def plan (now : Int) (a : Aggregation) : Except QueryError (Aggregation × GroupStatement) := do
  a.check.mapError .invalid
  let a ← a.resolve now
  let statement ← a.statement.mapError .invalid
  return (a, statement)

/-- The number of nodes of a target that meet all conditions. -/
def total (db : Database) (find : String) (conditions : List Entry) : Except QueryError Nat := do
  let selection ← (Selection.of find conditions).mapError .invalid
  let store ← db.storeFor (.count selection)
  return selection.count store

/-- The answer to an aggregation at a given time. -/
def run (db : Database) (now : Int) (a : Aggregation) : Except QueryError Tally := do
  let (a, statement) ← a.plan now
  let store ← db.storeFor (.groups statement)
  let rows := statement.answer store
  let total ← total db a.find a.conditions
  return .ofRows a total rows

end Aggregation

/-- The number of nodes that carry a tag, or of all nodes. -/
def Database.countTag (db : Database) (tag : String) : Except QueryError Nat := do
  (checkTarget tag).mapError .invalid
  Aggregation.total db tag []

end GraphIndex
