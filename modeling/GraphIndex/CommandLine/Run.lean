import GraphIndex.CommandLine.Arguments
import GraphIndex.Config.Load
import GraphIndex.Engine.Encode
import GraphIndex.Query.Language.Grammar
import GraphIndex.Query.Shorthand

/-!
# Running a command

`CommandLine.run` carries out a command line against the files, the environment and the time of a
machine, and says what the program prints and with what code it ends. Answers are printed as JSON.
-/

namespace GraphIndex.CommandLine

/-- What a command may look at. -/
structure Machine where
  folder : Folder
  home : String
  environment : Environment
  /-- The time in milliseconds since the start of 1970. -/
  now : Int
  deriving Repr

/-- Why a command fails. -/
inductive Failure where
  | config (fault : ConfigFault)
  | opening
  /-- The text of an option is not JSON. -/
  | notJson (option : Flag)
  | notQuery (cause : DecodeError)
  | request (error : QueryError)
  deriving Repr

/-- The text of a failure; of some only its kind is told. -/
def Failure.message : Failure → String
  | config fault => fault.message
  | opening => "opening database"
  | notJson option => "parsing --" ++ option.name
  | notQuery cause => "invalid query\n\nCaused by:\n    " ++ cause.message
  | request error => error.message

/-- The code with which a failure ends a run. -/
def Failure.code : Failure → Nat
  | request .overflow => 101
  | _ => 1

/-- What a run of the program leaves. -/
structure Outcome where
  code : Nat
  printed : String
  /-- The failure that ended the run. -/
  failure : Option Failure
  /-- A database that has to be kept, with its path. -/
  saved : Option (String × Database)
  deriving Repr

namespace Outcome

/-- A run that prints a text and succeeds. -/
def success (printed : String) : Outcome := ⟨0, printed, none, none⟩

/-- What is printed about a failure. -/
def complaint (o : Outcome) : Option String := o.failure.map fun f => "Error: " ++ f.message

end Outcome

/-! ### Requests -/

/-- A query as JSON. Conditions may be given in short form, and a limit that is left out is that of
the settings. -/
def queryOfJson (settings : Settings) (text : String) : Except Failure Query := do
  let j ←
    match Json.read? text with
    | some j => pure j.sorted
    | none => throw (.notJson .json)
  match j with
  | .object members => do
    let conditions? ←
      match members.lookup "where" with
      | some (.object pairs) => ((Shorthand.entries (.object pairs)).map some).mapError .request
      | _ => pure none
    -- Conditions in short form are read here and kept from the reader of the other fields.
    let members := if conditions?.isSome then members.filter (·.1 != "where") else members
    let members :=
      if (members.lookup "limit").isSome then members
      else Json.enter "limit" (.ofInt settings.queryLimit.toInt) members
    let q ← (Query.decode (.object members)).mapError .notQuery
    return { q with conditions := conditions?.getD q.conditions }
  | j => (Query.decode j).mapError .notQuery

/-- The conditions of an option. -/
def conditionsOfJson (text : String) : Except Failure (List Entry) :=
  match Json.read? text with
  | some j => (Shorthand.entries j.sorted).mapError .request
  | none => .error (.notJson .conditions)

/-- The query of a source. A query in text form has a limit of its own. -/
def queryOfSource (settings : Settings) : QuerySource → Except Failure Query
  | .text s => (Query.ofText s).mapError .request
  | .json s => queryOfJson settings s

/-! ### Commands -/

/-- The number of nodes with a tag. -/
def countJson (tag : String) (count : Nat) : Json :=
  .object [("count", .ofInt count), ("tag", .text tag)]

/-- The answer of a command, and the database it leaves if that has changed. -/
def answer (m : Machine) (settings : Settings) (path : String) (db : Database) :
    Command → Except Failure (Json × Option Database)
  | .query source => do
    let q ← queryOfSource settings source
    let page ← (q.run db db.fieldResolver m.now).mapError .request
    return (page.toJson, none)
  | .aggregate find groupBy conditions top percent limit => do
    let entries ← (conditions.map conditionsOfJson).getD (.ok [])
    let request : Aggregation := { Aggregation.along find (Dimension.listOfText groupBy) with
      conditions := entries
      showPercent := percent
      top := top
      limit := limit.getD settings.aggregateLimit }
    let tally ← (request.run db m.now).mapError .request
    return (tally.toJson, none)
  | .count tag => do
    let n ← (db.countTag tag).mapError .request
    return (countJson tag n, none)
  | .initSchema => return (.object [("initialized", .text path)], some db.ensureTables)
  | .config => return (.null, none)

/-- The settings of a run: of the given file, or of the first usable place. -/
def settingsFor (m : Machine) (config : Option String) : Except Failure Settings :=
  match config with
  | some path => do
    let f ← (FileSettings.load m.folder path).mapError .config
    return (Settings.ofFile m.home f).override m.environment
  | none => .ok (LoadedSettings.search m.folder m.home m.environment).settings

/-- Where the database of a run lies. -/
def databaseFor (m : Machine) (settings : Settings) (i : Invocation) : String :=
  i.database.getD (settings.databaseFile m.home)

/-- The path of the database of a run, if it gets so far as to open one. -/
def databasePath? (m : Machine) (arguments : List String) : Option String :=
  match read arguments with
  | .error _ => none
  | .ok i => (settingsFor m i.config).toOption.map fun settings => databaseFor m settings i

/-- The paths at which a run looks for settings. -/
def configPaths (home : String) (arguments : List String) : List String :=
  match read arguments with
  | .error _ => []
  | .ok i =>
    match i.config with
    | some path => [path]
    | none => candidatePaths home

/-- Carries out a command. -/
def execute (m : Machine) (i : Invocation) : Except Failure Outcome := do
  let settings ← settingsFor m i.config
  -- This command opens no database, but it fails on a settings file that fails.
  if i.command = .config then return .success (defaultConfigText m.home)
  let path := databaseFor m settings i
  let db ← (m.folder.openDatabase path).mapError fun _ => .opening
  let (j, changed) ← answer m settings path db i.command
  let printed := (if i.pretty then j.writeIndented else j.write) ++ "\n"
  return { Outcome.success printed with saved := changed.map fun db => (path, db) }

/-- The name and version of the program. -/
def versionText : String := "graphdex 0.1.0\n"

/-- How the program is called. -/
def helpText : String :=
  "Usage: graphdex [--db FILE] [--config FILE] [--pretty] COMMAND\n\n"
    ++ "Commands:\n"
    ++ "  query TEXT | query --json JSON\n"
    ++ "  aggregate --find TAG --group-by NAMES [--where JSON] [--top N] [--percent] [--limit N]\n"
    ++ "  count TAG\n"
    ++ "  init-schema\n"
    ++ "  config\n"

/-- Runs the program with its arguments. -/
def run (m : Machine) (arguments : List String) : Outcome :=
  match read arguments with
  | .error .usage => ⟨2, "", none, none⟩
  | .error .help => .success helpText
  | .error .version => .success versionText
  | .ok invocation =>
    match execute m invocation with
    | .ok outcome => outcome
    | .error failure => ⟨failure.code, "", some failure, none⟩

end GraphIndex.CommandLine
