import GraphIndex.Store.Basic
import GraphIndex.Text.Split

/-!
# Files

Files by their paths, as far as configurations and databases are looked up among them. A folder
exists as soon as a file lies in it. `Folder.openDatabase` opens a database: a file that is missing
or empty becomes one without tables, a file with any other text is none.
-/

namespace GraphIndex

/-- The content of a file. -/
inductive FileContent where
  | text (text : String)
  | database (database : Database)
  /-- Something is there that cannot be read. -/
  | unreadable
  deriving Repr, Inhabited

/-- Files by their paths; a path is the list of its parts. -/
structure Folder where
  files : List (List String × FileContent)
  deriving Repr, Inhabited

/-- What lies at a path. -/
inductive PathTarget where
  | file (content : FileContent)
  | folder
  | nothing
  /-- A part of the path that should be a folder is a file. -/
  | blocked
  deriving Repr

/-- Takes one part of a path; one point stays in place and two go back. -/
def enterPart (parts : List String) (part : String) : List String :=
  if part = "" ∨ part = "." then parts
  else if part = ".." then parts.dropLast
  else parts ++ [part]

/-- The part with which an absolute path begins. -/
def rootPart : String := "/"

/-- The parts of a path. -/
def pathParts (path : String) : List String :=
  let start := if path.toList.head? = some '/' then [rootPart] else []
  ((Text.splitOn '/' path.toList).map String.ofList).foldl enterPart start

namespace Folder

def empty : Folder := ⟨[]⟩

/-- The file at a path. -/
def file? (f : Folder) (parts : List String) : Option FileContent := f.files.lookup parts

/-- Whether there are files below a path. -/
def isFolder (f : Folder) (parts : List String) : Bool :=
  parts.isEmpty || f.files.any fun (p, _) => parts.isPrefixOf p && parts.length < p.length

/-- Whether a part of the path before the last one is a file. -/
def isBlocked (f : Folder) (parts : List String) : Bool :=
  f.files.any fun (p, _) => p.isPrefixOf parts && p.length < parts.length

/-- What lies at a path. -/
def target (f : Folder) (path : String) : PathTarget :=
  let parts := pathParts path
  match f.file? parts with
  | some content => .file content
  | none =>
    if f.isFolder parts then .folder
    else if f.isBlocked parts then .blocked
    else .nothing

/-- Opens the database at a path; missing folders are made. The empty path is that of a database
which is kept nowhere. -/
def openDatabase (f : Folder) (path : String) : Except QueryError Database :=
  if path.isEmpty then .ok .blank
  else match f.target path with
  | .file (.database db) => .ok db
  | .file (.text s) => if s.isEmpty then .ok .blank else .error .storage
  | .file .unreadable | .folder => .error .storage
  | .blocked => .error .unreachable
  | .nothing => .ok .blank

end Folder

end GraphIndex
