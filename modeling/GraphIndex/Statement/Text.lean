import GraphIndex.Statement.Basic

/-!
# The text of statements

A statement is written as a list of pieces: texts and slots. Each slot is written as a question mark
and carries the value that is bound to it, so the values of a statement come in the order of its
question marks.
-/

namespace GraphIndex

/-- A piece of a written statement. -/
inductive Piece where
  | text (text : String)
  | slot (value : Datum)
  deriving DecidableEq, Repr

namespace Piece

/-- The mark of a slot. -/
def slotMark : String := "?"

def written : Piece → String
  | text s => s
  | slot _ => slotMark

def value? : Piece → Option Datum
  | text _ => none
  | slot d => some d

/-- The written text of pieces. -/
def textOf (ps : List Piece) : String := String.join (ps.map written)

/-- The bound values in the order of the text. -/
def valuesOf (ps : List Piece) : List Datum := ps.filterMap value?

/-- Sets a text between parts. -/
def joined (separator : String) : List (List Piece) → List Piece
  | [] => []
  | [ps] => ps
  | ps :: rest => ps ++ text separator :: joined separator rest

end Piece

open Piece

/-- A text between single quotes; the texts that stand in statements hold no quote. -/
def quotedText (s : String) : String := "'" ++ s ++ "'"

def Affinity.name : Affinity → String
  | text => "TEXT"
  | integer => "INTEGER"
  | real => "REAL"

/-- The directive of a part of a date. -/
def DatePart.directive : DatePart → String
  | year => "%Y"
  | month => "%m"
  | day => "%d"
  | week => "%W"
  | char c => c.toString

def formatText (format : List DatePart) : String := String.join (format.map DatePart.directive)

/-- A column of a row. -/
def columnText (source : Alias) (column : Column) : String := source.name ++ "." ++ column.name

namespace Expr

/-- The pieces of an expression. -/
def pieces : Expr → List Piece
  | column source c => [text (columnText source c)]
  | bound value => [slot value]
  | quoted s => [text (quotedText s)]
  | number n => [text (toString n)]
  | cast e a => text "CAST(" :: (e.pieces ++ [text (" AS " ++ a.name ++ ")")])
  | orText e s => text "COALESCE(" :: (e.pieces ++ [text (", " ++ quotedText s ++ ")")])
  | date format e =>
    text ("strftime(" ++ quotedText (formatText format) ++ ", ")
      :: (e.pieces ++ [text ", 'unixepoch')"])
  | plus e d => e.pieces ++ text " + " :: d.pieces
  | divide e d => e.pieces ++ text " / " :: d.pieces
  | concat e d => e.pieces ++ text " || " :: d.pieces
  | parens e => text "(" :: (e.pieces ++ [text ")"])

end Expr

/-- The beginning of a nested query over the rows of a table. -/
def Source.nestedText (s : Source) : String :=
  "EXISTS (SELECT 1 FROM " ++ s.table.name ++ " " ++ s.name.name ++ " WHERE "

/-- A connective between two conditions. -/
def Connective.separator (kind : Connective) : String := " " ++ kind.keyword ++ " "

namespace Condition

mutual

/-- The pieces of a condition. -/
def pieces : Condition → List Piece
  | compare left c right => left.pieces ++ text (" " ++ c.symbol ++ " ") :: right.pieces
  | like e pattern => e.pieces ++ [text " LIKE ", slot (.text pattern), text " ESCAPE '\\'"]
  | glob fits e pattern =>
    e.pieces ++ [text ((if fits then " GLOB " else " NOT GLOB ")
      ++ quotedText (.ofList pattern.globText))]
  | isNull e => e.pieces ++ [text " IS NULL"]
  | isNotNull e => e.pieces ++ [text " IS NOT NULL"]
  | .exists holds source conditions =>
    text ((if holds then "" else "NOT ") ++ source.nestedText)
      :: (joined Connective.all.separator (listPieces conditions) ++ [text ")"])
  | group kind members =>
    text "(" :: (joined kind.separator (listPieces members) ++ [text ")"])
  | not c => text "NOT (" :: (c.pieces ++ [text ")"])

/-- The pieces of every condition of a list. -/
def listPieces : List Condition → List (List Piece)
  | [] => []
  | c :: rest => c.pieces :: listPieces rest

end

/-- The pieces of conditions that must all hold. -/
def allPieces (cs : List Condition) : List Piece := joined Connective.all.separator (listPieces cs)

end Condition

/-- The pieces of a join. -/
def Join.pieces (j : Join) : List Piece :=
  let kind := match j.kind with
    | .inner => "INNER JOIN "
    | .left => "LEFT JOIN "
  text (kind ++ j.source.table.name ++ " " ++ j.source.name.name ++ " ON ")
    :: Condition.allPieces j.on

/-- The pieces of joins, a blank between any two. -/
def JoinSet.pieces (s : JoinSet) : List Piece := joined " " (s.joins.map Join.pieces)

namespace Selection

/-- The pieces of the condition, if there is one. -/
def filterPieces (s : Selection) : List Piece :=
  if s.conditions.isEmpty then [] else text "WHERE " :: Condition.allPieces s.conditions

/-- The pieces of what the rows are taken from and what must hold of them. -/
def pieces (s : Selection) : List Piece :=
  text (" FROM " ++ Table.nodes.name ++ " " ++ Alias.node.name ++ " ")
    :: (s.joins.pieces ++ text " " :: s.filterPieces)

end Selection

/-- The pieces of a sort key. -/
def SortTerm.pieces : SortTerm → List Piece
  | column c => [text (columnText .node (.node c))]
  | parentName =>
    [text ("(SELECT " ++ columnText .sortParent (.node .name) ++ " FROM " ++ Table.nodes.name ++ " "
      ++ Alias.sortParent.name ++ " WHERE " ++ columnText .sortParent (.node .id) ++ " = "
      ++ columnText .node (.node .parentId) ++ ")")]
  | field name =>
    [text ("(SELECT " ++ columnText .sortField .fieldValue ++ " FROM " ++ Table.fields.name ++ " "
      ++ Alias.sortField.name ++ " WHERE " ++ columnText .sortField .fieldNode ++ " = "
      ++ columnText .node (.node .id) ++ " AND " ++ columnText .sortField .fieldName ++ " = "),
     slot (.text name),
     text (" ORDER BY " ++ columnText .sortField .fieldOrder ++ " LIMIT 1)")]

/-- The column by which nodes are told apart. -/
def nodeId : String := columnText .node (.node .id)

namespace PageStatement

/-- The pieces of a statement for a page. -/
def pieces (s : PageStatement) : List Piece :=
  let columns := NodeColumn.all.map fun c => columnText .node (.node c)
  text ("SELECT DISTINCT " ++ ", ".intercalate columns) :: (s.selection.pieces
    ++ text " ORDER BY " :: (s.sortBy.pieces
    ++ [text ((if s.descending then " DESC, " else " ASC, ") ++ nodeId ++ " ASC LIMIT "),
      slot (.integer s.limit), text " OFFSET ", slot (.integer s.offset)]))

/-- The text of a statement for a page. -/
def sql (s : PageStatement) : String := textOf s.pieces

/-- The values bound in it. -/
def values (s : PageStatement) : List Datum := valuesOf s.pieces

end PageStatement

namespace GroupStatement

/-- The name of a key in the statement. -/
def keyName (place : Nat) : String := "k" ++ toString place

/-- The names of so many keys. -/
def keyNames (count : Nat) : String := ", ".intercalate ((List.range count).map keyName)

/-- The pieces of the keys, numbered from `place` on. -/
def keyPieces (place : Nat) : List Expr → List Piece
  | [] => []
  | e :: rest => e.pieces ++ text (" AS " ++ keyName place ++ ", ") :: keyPieces (place + 1) rest

/-- The pieces of a statement for groups. -/
def pieces (s : GroupStatement) : List Piece :=
  let names := keyNames s.keys.length
  text "SELECT " :: (keyPieces 0 s.keys
    ++ text ("COUNT(DISTINCT " ++ nodeId ++ ") AS cnt") :: (s.selection.pieces
    ++ [text (" GROUP BY " ++ names ++ " ORDER BY cnt DESC, " ++ names ++ " LIMIT "),
      slot (.integer s.limit)]))

/-- The text of a statement for groups. -/
def sql (s : GroupStatement) : String := textOf s.pieces

/-- The values bound in it. -/
def values (s : GroupStatement) : List Datum := valuesOf s.pieces

end GroupStatement

namespace Selection

/-- The pieces of a statement that counts the nodes of a selection. -/
def countPieces (s : Selection) : List Piece :=
  text ("SELECT COUNT(DISTINCT " ++ nodeId ++ ")") :: s.pieces

/-- The text of a statement that counts nodes. -/
def countSql (s : Selection) : String := textOf s.countPieces

/-- The values bound in it. -/
def countValues (s : Selection) : List Datum := valuesOf s.countPieces

end Selection

end GraphIndex
