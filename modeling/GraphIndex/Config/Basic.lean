import GraphIndex.Query.Basic
import GraphIndex.Toml.Reader

/-!
# Settings

Five settings: where the database lies, how many nodes or groups are shown where a request does not
say, and how messages are logged. A file may give any of them; what it leaves out has a default, and
three of them can be overridden by the environment.
-/

namespace GraphIndex

/-- The settings of the program. -/
structure Settings where
  databasePath : String
  queryLimit : Int64
  aggregateLimit : Int64
  logLevel : String
  logFormat : String
  deriving DecidableEq, Repr, Inhabited

/-- The settings that a file gives. -/
structure FileSettings where
  databasePath : Option String
  queryLimit : Option Int64
  aggregateLimit : Option Int64
  logLevel : Option String
  logFormat : Option String
  deriving DecidableEq, Repr, Inhabited

/-- The settings that the environment gives. -/
structure Environment where
  databasePath : Option String
  logLevel : Option String
  logFormat : Option String
  deriving DecidableEq, Repr, Inhabited

namespace Environment

/-- The variable for the place of the database. -/
def databaseVariable : String := "GRAPHDEX_DB_PATH"

/-- The variable for the level from which on messages are logged. -/
def levelVariable : String := "GRAPHDEX_LOG_LEVEL"

/-- The variable for the form of messages. -/
def formatVariable : String := "GRAPHDEX_LOG_FORMAT"

/-- The settings that the variables give. -/
def ofVariables (value? : String → Option String) : Environment :=
  ⟨value? databaseVariable, value? levelVariable, value? formatVariable⟩

end Environment

/-- Why a file gives no settings. -/
inductive ConfigFault where
  | unreadable
  | malformed
  deriving DecidableEq, Repr

def ConfigFault.message : ConfigFault → String
  | unreadable => "Failed to read config file"
  | malformed => "Failed to parse config file"

/-- A file that is there and gives no settings. -/
structure Rejection where
  path : String
  fault : ConfigFault
  deriving DecidableEq, Repr

/-! ### Paths -/

/-- A path below another one. -/
def joinPath (base rest : String) : String :=
  match base.toList.getLast? with
  | none => rest
  | some '/' => base ++ rest
  | some _ => base ++ "/" ++ rest

/-- Where the database lies below a home folder. -/
def defaultDatabasePath (home : String) : String :=
  joinPath home ".local/share/graphdex/index.db"

/-- Where the settings lie below a home folder. -/
def homeConfigPath (home : String) : String := joinPath home ".config/graphdex/config.toml"

/-- The places where settings are looked for, in order. -/
def candidatePaths (home : String) : List String :=
  [homeConfigPath home, "/etc/graphdex/config.toml", "./graphdex.toml"]

/-- Whether a character separates the parts of a path. -/
def isSeparator (c : Char) : Bool := c = '/' ∨ c = '\\'

/-- A path with the home folder in place of a leading tilde. -/
def expandHome (home path : String) : String :=
  match path.toList with
  | '~' :: rest =>
    if rest.head?.all isSeparator then joinPath home (.ofList (rest.dropWhile isSeparator))
    else path
  | _ => path

namespace FileSettings

/-- A file that gives nothing. -/
def none : FileSettings := ⟨.none, .none, .none, .none, .none⟩

/-! ### Reading a file -/

/-- A setting that is a text. -/
def text? : Option Toml → Option (Option String)
  | .none => some .none
  | some (.text s) => some (some s)
  | some _ => .none

/-- A setting that is a number. -/
def limit? : Option Toml → Option (Option Int64)
  | .none => some .none
  | some (.integer i) => some (some i)
  | some _ => .none

/-- The settings of a section under their keys. A section may also be a list of the settings in
order; a date in its place gives none. -/
def section? (document : TomlMembers) (name : String) (keys : List String) :
    Option (List (Option Toml)) :=
  match document.lookup name with
  | .none => some (keys.map fun _ => .none)
  | some (.table _ members) => some (keys.map fun key => members.lookup key)
  | some (.moment _) => some (keys.map fun _ => .none)
  | some (.array items) => some ((List.range keys.length).map fun place => items[place]?)
  | some _ => .none

/-- The settings of a document; keys that are not known are passed over. -/
def ofToml? (document : TomlMembers) : Option FileSettings := do
  let database ← section? document "database" ["path"]
  let query ← section? document "query" ["default_limit", "default_aggregate_limit"]
  let logging ← section? document "logging" ["level", "format"]
  let path ← text? (database.getD 0 .none)
  let queryLimit ← limit? (query.getD 0 .none)
  let aggregateLimit ← limit? (query.getD 1 .none)
  let level ← text? (logging.getD 0 .none)
  let format ← text? (logging.getD 1 .none)
  return ⟨path, queryLimit, aggregateLimit, level, format⟩

/-- The settings of the text of a file. -/
def ofText (text : String) : Except ConfigFault FileSettings :=
  match (Toml.read? text).bind ofToml? with
  | some s => .ok s
  | .none => .error .malformed

end FileSettings

namespace Settings

/-- The settings of a file, with defaults for what it leaves out. -/
def ofFile (home : String) (f : FileSettings) : Settings where
  databasePath := f.databasePath.getD (defaultDatabasePath home)
  queryLimit := f.queryLimit.getD defaultLimit
  aggregateLimit := f.aggregateLimit.getD defaultLimit
  logLevel := f.logLevel.getD "info"
  logFormat := f.logFormat.getD "pretty"

/-- The settings that hold where no file is found. -/
def default (home : String) : Settings := ofFile home .none

/-- The settings with those of the environment in their place. -/
def override (e : Environment) (s : Settings) : Settings :=
  { s with
    databasePath := e.databasePath.getD s.databasePath
    logLevel := e.logLevel.getD s.logLevel
    logFormat := e.logFormat.getD s.logFormat }

/-- Where the database lies. -/
def databaseFile (home : String) (s : Settings) : String := expandHome home s.databasePath

end Settings

/-! ### Looking for a file -/

/-- A place where settings may lie: a path, and what a look at it gives; `none` if nothing is
there. -/
structure Candidate where
  path : String
  content : Option (Except ConfigFault FileSettings)
  deriving Repr

/-- Settings and where they come from. -/
structure LoadedSettings where
  settings : Settings
  /-- The file that gave them, if one did. -/
  path : Option String
  /-- The files that were passed over. -/
  rejected : List Rejection
  deriving Repr

namespace LoadedSettings

/-- What was wrong with the files that were passed over. -/
def failures (l : LoadedSettings) : List ConfigFault := l.rejected.map (·.fault)

/-- Notes a file that was passed over. -/
def after (r : Rejection) (l : LoadedSettings) : LoadedSettings :=
  { l with rejected := r :: l.rejected }

/-- The settings of the first file that gives some; those of the environment override them, and
stand alone if no file does. -/
def first (home : String) (e : Environment) : List Candidate → LoadedSettings
  | [] => ⟨(Settings.default home).override e, none, []⟩
  | c :: rest =>
    match c.content with
    | none => first home e rest
    | some (.ok f) => ⟨(Settings.ofFile home f).override e, some c.path, []⟩
    | some (.error fault) => (first home e rest).after ⟨c.path, fault⟩

end LoadedSettings

end GraphIndex
