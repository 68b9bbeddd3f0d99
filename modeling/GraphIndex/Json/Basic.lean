import GraphIndex.Number.Binary64

/-!
# JSON values

A JSON value as a text spells it: members of an object stay in the order of the text and a key may
occur twice. `Json.sorted` gives the value as a table instead, each key once, in ascending order,
with the last of its values.

A text may stop being JSON half-way. The value read so far is kept and the rest is the constructor
`unreadable`, so that a reader who finds a fault in what was read can report that fault first.
-/

namespace GraphIndex

/-- A JSON number: an integer that fits sixty-four bits, with or without sign, or a double. -/
inductive JsonNumber where
  | integer (value : Int)
  | real (value : Binary64)
  deriving DecidableEq, Repr, Inhabited

/-- A JSON value. -/
inductive Json where
  | null
  | bool (value : Bool)
  | number (value : JsonNumber)
  | text (value : String)
  | array (items : List Json)
  | object (members : List (String × Json))
  /-- The place where a text stops being JSON. -/
  | unreadable
  deriving Repr, Inhabited

namespace Json

def ofInt (i : Int) : Json := .number (.integer i)

mutual

/-- Whether the text was read to the end of the value. -/
def isReadable : Json → Bool
  | .unreadable => false
  | .array items => itemsReadable items
  | .object members => membersReadable members
  | _ => true

def itemsReadable : List Json → Bool
  | [] => true
  | j :: rest => j.isReadable && itemsReadable rest

def membersReadable : List (String × Json) → Bool
  | [] => true
  | (_, j) :: rest => j.isReadable && membersReadable rest

end

/-- Enters a member into a table with ascending keys; a present key gets the new value. -/
def enter (key : String) (value : Json) : List (String × Json) → List (String × Json)
  | [] => [(key, value)]
  | (k, v) :: rest =>
    if key = k then (key, value) :: rest
    else if key < k then (key, value) :: (k, v) :: rest
    else (k, v) :: enter key value rest

mutual

/-- The value with every object read as a table: keys ascend, a repeated key keeps its last
value. -/
def sorted : Json → Json
  | .array items => .array (sortedItems items)
  | .object members => .object (sortedMembers [] members)
  | j => j

def sortedItems : List Json → List Json
  | [] => []
  | j :: rest => j.sorted :: sortedItems rest

def sortedMembers (table : List (String × Json)) : List (String × Json) → List (String × Json)
  | [] => table
  | (k, j) :: rest => sortedMembers (enter k j.sorted table) rest

end

/-- The value of a key in an object. -/
def member? (j : Json) (key : String) : Option Json :=
  match j with
  | .object members => members.lookup key
  | _ => none

end Json

end GraphIndex
