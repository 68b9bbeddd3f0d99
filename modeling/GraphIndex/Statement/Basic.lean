import GraphIndex.Query.Entry
import GraphIndex.Statement.Pattern
import GraphIndex.Store.Basic

/-!
# Statements

What is asked of the store: conditions on rows of its tables, joins that bring the rows together,
and three kinds of statements built from them. Every row is addressed by an alias, and every value
of a request stands in a statement as a bound value.
-/

namespace GraphIndex

/-! ### Tables and their rows -/

/-- The tables of the store. -/
inductive Table where
  | nodes
  | tags
  | fields
  deriving DecidableEq, Repr, Inhabited

/-- The columns that statements read. -/
inductive Column where
  | node (column : NodeColumn)
  | tagNode
  | tagName
  | fieldNode
  | fieldName
  | fieldValue
  | fieldOrder
  deriving DecidableEq, Repr, Inhabited

namespace Table

def name : Table → String
  | nodes => "nodes"
  | tags => "tag_applications"
  | fields => "field_values"

end Table

namespace Column

def name : Column → String
  | node c => c.columnName
  | tagNode => "data_node_id"
  | tagName => "tag_name"
  | fieldNode => "parent_id"
  | fieldName => "field_name"
  | fieldValue => "value_text"
  | fieldOrder => "value_order"

/-- The kind of value that a column prefers. -/
def affinity : Column → Affinity
  | node c => if c.isDate then .integer else .text
  | fieldOrder => .integer
  | _ => .text

end Column

/-- The name of a row inside a statement. -/
inductive Alias where
  /-- The node that is asked for. -/
  | node
  /-- Its parent. -/
  | parent
  /-- The tag row that makes it a member of the target. -/
  | tagged
  /-- One tag row of the parent. -/
  | parentTag (number : Nat)
  /-- The parent, inside a nested query. -/
  | parentName (number : Nat)
  /-- One value of a custom field; the stem keeps several lists of conditions apart. -/
  | fieldValue (stem : String) (number : Nat)
  /-- The row by which nodes are grouped along a dimension. -/
  | dimension (number : Nat)
  /-- Some tag row of the parent, inside a nested query. -/
  | someParentTag
  /-- The parent, inside a sort key. -/
  | sortParent
  /-- A field value, inside a sort key. -/
  | sortField
  deriving DecidableEq, Repr, Inhabited

/-- The text of an alias. -/
def Alias.name : Alias → String
  | node => "n"
  | parent => "parent"
  | tagged => "ta"
  | parentTag k => "pt" ++ toString k
  | parentName k => "pn" ++ toString k
  | fieldValue stem k => stem ++ toString k
  | dimension k => "g" ++ toString k
  | someParentTag => "pt"
  | sortParent => "p"
  | sortField => "o"

/-- A table under an alias. -/
structure Source where
  table : Table
  name : Alias
  deriving DecidableEq, Repr, Inhabited

/-! ### Expressions and conditions -/

/-- A part of a date as it is written. -/
inductive DatePart where
  | year
  | month
  | day
  /-- The week of the year, weeks beginning on Mondays. -/
  | week
  | char (c : Char)
  deriving DecidableEq, Repr

/-- An expression over the rows at hand. -/
inductive Expr where
  | column (source : Alias) (column : Column)
  | bound (value : Datum)
  | quoted (text : String)
  | number (value : Nat)
  | cast (e : Expr) (affinity : Affinity)
  /-- The value, or a text in place of null. -/
  | orText (e : Expr) (text : String)
  /-- The date of a number of seconds since the start of 1970. -/
  | date (format : List DatePart) (seconds : Expr)
  | plus (e d : Expr)
  | divide (e d : Expr)
  | concat (e d : Expr)
  | parens (e : Expr)
  deriving DecidableEq, Repr

/-- A condition on the rows at hand. -/
inductive Condition where
  | compare (left : Expr) (comparison : Comparison) (right : Expr)
  /-- The text fits a bound pattern with escapes. -/
  | like (e : Expr) (pattern : String)
  /-- The text fits a pattern with classes, or does not fit it. -/
  | glob (fits : Bool) (e : Expr) (pattern : Pattern)
  | isNull (e : Expr)
  | isNotNull (e : Expr)
  /-- Some row of a table meets all conditions, or none does. -/
  | exists (holds : Bool) (source : Source) (conditions : List Condition)
  | group (kind : Connective) (members : List Condition)
  | not (c : Condition)
  deriving Repr

/-! ### Joins -/

/-- What becomes of a row without a partner. -/
inductive JoinKind where
  /-- It is dropped. -/
  | inner
  /-- Nulls take the place of the partner. -/
  | left
  deriving DecidableEq, Repr

/-- A table whose rows are set beside the rows at hand. -/
structure Join where
  kind : JoinKind
  source : Source
  /-- All of them must hold of a partner. -/
  on : List Condition
  deriving Repr

/-- What a join brings in; of two joins with one key only the first counts. -/
inductive JoinKey where
  | parent
  | tag
  | parentTags (name : String)
  | fieldValue (name : String)
  | groupField (name : String)
  deriving DecidableEq, Repr

/-- The key of a join follows from its alias; the aliases of nested queries belong to no join. -/
def Alias.joinKey? : Alias → Option JoinKey
  | parent => some .parent
  | tagged => some .tag
  | parentTag k => some (.parentTags (parentTag k).name)
  | fieldValue stem k => some (.fieldValue (fieldValue stem k).name)
  | dimension k => some (.groupField (dimension k).name)
  | _ => none

/-- The key of a join. -/
def Join.key? (j : Join) : Option JoinKey := j.source.name.joinKey?

/-- Joins in the order in which they were added, one of each key, and beside them their keys. -/
structure JoinSet where
  joins : List Join
  keys : List (Option JoinKey)
  keys_eq : keys = joins.map Join.key?
  deriving Repr

namespace JoinSet

def empty : JoinSet := ⟨[], [], rfl⟩

instance : Inhabited JoinSet := ⟨empty⟩

/-- The joins of a set in order. -/
def toList (s : JoinSet) : List Join := s.joins

def size (s : JoinSet) : Nat := s.joins.length

def isEmpty (s : JoinSet) : Bool := s.joins.isEmpty

/-- Whether a join with the key is there. -/
def contains (s : JoinSet) (key : Option JoinKey) : Bool := s.keys.contains key

/-- Adds a join unless one with its key is there. -/
def insert (s : JoinSet) (j : Join) : JoinSet :=
  if s.contains j.key? then s
  else ⟨s.joins ++ [j], s.keys ++ [j.key?], by rw [s.keys_eq, List.map_append]; rfl⟩

/-- Adds joins one after the other. -/
def insertAll (s : JoinSet) (js : List Join) : JoinSet := js.foldl insert s

/-- Adds the joins of another set. -/
def union (s t : JoinSet) : JoinSet := s.insertAll t.joins

def ofList (js : List Join) : JoinSet := empty.insertAll js

/-- The keys that are kept are those of the joins. -/
theorem contains_iff (s : JoinSet) (key : Option JoinKey) :
    s.contains key = true ↔ ∃ j ∈ s.joins, j.key? = key := by
  unfold contains
  rw [List.contains_iff_mem, s.keys_eq, List.mem_map]

/-- The keys follow from the joins. -/
theorem eq_of_joins_eq {s t : JoinSet} (h : s.joins = t.joins) : s = t := by
  cases s with | mk joins keys hkeys
  cases t with | mk joins' keys' hkeys'
  obtain rfl : joins = joins' := h
  obtain rfl : keys = keys' := hkeys.trans hkeys'.symm
  rfl

theorem insert_of_contains {s : JoinSet} {j : Join} (h : s.contains j.key? = true) :
    s.insert j = s := by
  rw [insert, if_pos h]

theorem joins_insert_of_not_contains {s : JoinSet} {j : Join} (h : ¬ s.contains j.key? = true) :
    (s.insert j).joins = s.joins ++ [j] := by
  rw [insert, if_neg h]

end JoinSet

/-! ### Statements -/

/-- The rows that a statement works on: nodes, what is joined to them, and what must hold. -/
structure Selection where
  joins : JoinSet
  conditions : List Condition
  deriving Repr

/-- What the nodes of a page are sorted by. -/
inductive SortTerm where
  | column (column : NodeColumn)
  /-- The name of the parent. -/
  | parentName
  /-- The first value of a custom field. -/
  | field (name : String)
  deriving DecidableEq, Repr

/-- A statement for a page of nodes. -/
structure PageStatement where
  selection : Selection
  sortBy : SortTerm
  descending : Bool
  limit : Int64
  offset : Int64
  deriving Repr

/-- A statement for the sizes of groups, largest groups first. -/
structure GroupStatement where
  selection : Selection
  keys : List Expr
  /-- How many groups are wanted at most. -/
  limit : Int64
  deriving Repr

end GraphIndex
