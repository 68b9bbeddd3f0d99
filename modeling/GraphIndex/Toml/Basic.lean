import GraphIndex.Number.Binary64

/-!
# TOML documents

A document is a table of values. While it is read, every table remembers how it came about, for that
decides what may still be added to it: `Toml.updateAt` walks to a table and changes it, and fails
where the document may not be continued so.
-/

namespace GraphIndex

/-- How a table came about. -/
inductive TableOrigin where
  /-- Its own header; the document itself counts as such a table. -/
  | header
  /-- The header of a table inside it. -/
  | passed
  /-- A dotted key. -/
  | dotted
  /-- A value in braces, which is complete. -/
  | braces
  deriving DecidableEq, Repr, Inhabited

/-- A value of a document. -/
inductive Toml where
  | text (value : String)
  | integer (value : Int64)
  | real (value : Binary64)
  | bool (value : Bool)
  /-- A date, a time or both, as it is written. -/
  | moment (text : String)
  | array (items : List Toml)
  | table (origin : TableOrigin) (members : List (String × Toml))
  /-- The tables of a header in double brackets, each with its members. -/
  | tables (items : List (List (String × Toml)))
  deriving Repr, Inhabited

/-- The members of a table. -/
abbrev TomlMembers := List (String × Toml)

namespace Toml

/-- Gives a key a value, in its place if it is there. -/
def setMember (key : String) (value : Toml) : TomlMembers → TomlMembers
  | [] => [(key, value)]
  | (k, v) :: rest => if k = key then (key, value) :: rest else (k, v) :: setMember key value rest

/-- Changes the table at the end of a path. A key on the way that is missing becomes a table of the
given origin. Dotted keys do not enter a table with a header. -/
def updateAt (made : TableOrigin) (change : TableOrigin → TomlMembers → Option TomlMembers)
    (origin : TableOrigin) : List String → TomlMembers → Option TomlMembers
  | [], members => change origin members
  | key :: path, members =>
    match members.lookup key with
    | none => do
      let inner ← updateAt made change made path []
      return setMember key (.table made inner) members
    | some (.table o inner) =>
      if o = .braces ∨ (made = .dotted ∧ o = .header) then none
      else do
        let inner ← updateAt made change o path inner
        return setMember key (.table o inner) members
    | some (.tables items) =>
      match items.getLast? with
      | none => none
      | some last => do
        let last ← updateAt made change .header path last
        return setMember key (.tables (items.dropLast ++ [last])) members
    | some _ => none

/-- Adds a new key. A table made by dotted keys takes only dotted keys, any other table only plain
ones. -/
def addPair (isDotted : Bool) (key : String) (value : Toml) (origin : TableOrigin)
    (members : TomlMembers) : Option TomlMembers :=
  if (origin == .dotted) != isDotted || (members.lookup key).isSome then none
  else some (members ++ [(key, value)])

/-- Opens the table of a header: it must not be there, unless headers inside it made it. -/
def openTable (key : String) (_ : TableOrigin) (members : TomlMembers) : Option TomlMembers :=
  match members.lookup key with
  | none => some (members ++ [(key, .table .header [])])
  | some (.table .passed inner) => some (setMember key (.table .header inner) members)
  | some _ => none

/-- Opens one more table of a header in double brackets. -/
def openTables (key : String) (_ : TableOrigin) (members : TomlMembers) : Option TomlMembers :=
  match members.lookup key with
  | none => some (members ++ [(key, .tables [[]])])
  | some (.tables items) => some (setMember key (.tables (items ++ [[]])) members)
  | some _ => none

end Toml

end GraphIndex
