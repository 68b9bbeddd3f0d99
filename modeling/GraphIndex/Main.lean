import GraphIndex.CommandLine.Run
import GraphIndex.Store.Encoded
import Std.Time.DateTime.Timestamp

/-!
# The program

The outer layer: it gathers the files, the environment and the time that a run looks at, prints what
the run leaves, and keeps the database if the run changed it.
-/

namespace GraphIndex

/-- Looks at a path; what is there is made a file by `content`. -/
def lookAt (content : String → FileContent) (path : String) :
    IO (List (List String × FileContent)) := do
  match ← (IO.FS.readFile path).toBaseIO with
  | .ok text => return [(pathParts path, content text)]
  | .error (.noFileOrDirectory ..) => return []
  | .error _ => return [(pathParts path, .unreadable)]

/-- The environment of the program. -/
def readEnvironment : IO Environment := do
  let names := [Environment.databaseVariable, Environment.levelVariable, Environment.formatVariable]
  let values ← names.mapM fun name => do return (name, ← IO.getEnv name)
  return .ofVariables fun name => (values.lookup name).join

/-- Gathers what a run with the given arguments looks at. -/
def gather (arguments : List String) : IO CommandLine.Machine := do
  let home := (← IO.getEnv "HOME").getD ""
  let now ← Std.Time.Timestamp.now
  let settings ← (CommandLine.configPaths home arguments).mapM (lookAt .text)
  let machine : CommandLine.Machine :=
    ⟨⟨settings.flatten⟩, home, ← readEnvironment, now.toMillisecondsSinceUnixEpoch.toInt⟩
  match CommandLine.databasePath? machine arguments with
  | none => return machine
  | some path =>
    let files ← lookAt .decode path
    return { machine with folder := ⟨files ++ machine.folder.files⟩ }

/-- Keeps a database; missing folders are made. -/
def keep (path : String) (db : Database) : IO Unit := do
  let folder := (pathParts path).dropLast
  unless folder.isEmpty do
    IO.FS.createDirAll ("/".intercalate folder)
  IO.FS.writeFile path db.encode

end GraphIndex

open GraphIndex in
/-- Runs the program. -/
def main (arguments : List String) : IO UInt32 := do
  let machine ← gather arguments
  let outcome := CommandLine.run machine arguments
  IO.print outcome.printed
  if let some complaint := outcome.complaint then IO.eprintln complaint
  if let some (path, db) := outcome.saved then keep path db
  return UInt32.ofNat outcome.code
