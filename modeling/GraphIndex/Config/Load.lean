import GraphIndex.Config.Basic
import GraphIndex.Store.Folder

/-!
# Settings in files

Settings are read from a given file or from the first usable one of the places where they may lie.
`defaultConfigText` is the text of a file that gives every setting its default.
-/

namespace GraphIndex

namespace FileSettings

/-- The settings of what lies at a path; `none` if nothing does. -/
def ofTarget? : PathTarget → Option (Except ConfigFault FileSettings)
  | .file (.text text) => some (ofText text)
  -- What is there and is no text is a fault; what is not there is passed over.
  | .file (.database _) | .file .unreadable | .folder => some (.error .unreadable)
  | .nothing | .blocked => Option.none

/-- The settings of a file that has to be there. -/
def load (folder : Folder) (path : String) : Except ConfigFault FileSettings :=
  (ofTarget? (folder.target path)).getD (.error .unreadable)

end FileSettings

/-- What lies at a place where settings may lie. -/
def Candidate.at (folder : Folder) (path : String) : Candidate :=
  ⟨path, FileSettings.ofTarget? (folder.target path)⟩

/-- The settings of the first usable place, below a home folder or elsewhere. -/
def LoadedSettings.search (folder : Folder) (home : String) (e : Environment) : LoadedSettings :=
  first home e ((candidatePaths home).map (Candidate.at folder))

/-- The text of a file of settings with all defaults. -/
def defaultConfigText (home : String) : String :=
  "\n".intercalate [
    "# Graphdex Configuration",
    "#",
    "# Environment variables override these settings:",
    "# - GRAPHDEX_DB_PATH",
    "# - GRAPHDEX_LOG_LEVEL",
    "# - GRAPHDEX_LOG_FORMAT",
    "",
    "[database]",
    "# SQLite file holding the indexed graph export",
    "path = " ++ TomlText.quote (defaultDatabasePath home),
    "",
    "[query]",
    "# Page size when a query gives no limit",
    "default_limit = 100",
    "",
    "# Group cap when an aggregation gives no limit",
    "default_aggregate_limit = 100",
    "",
    "[logging]",
    "# Log level: trace, debug, info, warn, error",
    "level = \"info\"",
    "",
    "# Log format: pretty (for development) or json (for production)",
    "format = \"pretty\"",
    ""]

end GraphIndex
