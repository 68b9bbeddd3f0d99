import GraphIndex.Config.Load
import Mathlib.Data.Option.Basic

/-!
# Where settings come from

Each of the five settings is decided on its own (`Setting`): a variable of the environment counts
before the file that was picked, and the file before the default. `Setting.inDocument?` says what a
document holds for a setting, and `FileSettings.ofToml?_eq_some_iff` that a document is accepted
just if it can be read at the places of all settings.

`LoadedSettings.first_append` follows the search over files that give no settings: they are noted if
they are there and leave no trace otherwise.
-/

namespace GraphIndex

/-! ### Single settings -/

/-- The five settings. -/
inductive Setting where
  | databasePath
  | queryLimit
  | aggregateLimit
  | logLevel
  | logFormat
  deriving DecidableEq, Repr

/-- The value of a setting. -/
inductive SettingValue where
  | text (value : String)
  | limit (value : Int64)
  deriving DecidableEq, Repr

namespace Setting

/-- The variable that a setting has in the environment. -/
def variableName? : Setting → Option String
  | databasePath => some Environment.databaseVariable
  | logLevel => some Environment.levelVariable
  | logFormat => some Environment.formatVariable
  | queryLimit | aggregateLimit => none

/-- The value where nothing else is given. -/
def default (home : String) : Setting → SettingValue
  | databasePath => .text (defaultDatabasePath home)
  | queryLimit | aggregateLimit => .limit defaultLimit
  | logLevel => .text "info"
  | logFormat => .text "pretty"

/-- The section of a document in which a setting stands. -/
def sectionName : Setting → String
  | databasePath => "database"
  | queryLimit | aggregateLimit => "query"
  | logLevel | logFormat => "logging"

/-- The key of a setting in its section. -/
def key : Setting → String
  | databasePath => "path"
  | queryLimit => "default_limit"
  | aggregateLimit => "default_aggregate_limit"
  | logLevel => "level"
  | logFormat => "format"

/-- The place of a setting in a section that is a list. -/
def place : Setting → Nat
  | databasePath | queryLimit | logLevel => 0
  | aggregateLimit | logFormat => 1

/-- Whether a value of a document can be the value of a setting, and which one. -/
def ofToml? : Setting → Toml → Option SettingValue
  | queryLimit, .integer i | aggregateLimit, .integer i => some (.limit i)
  | databasePath, .text s | logLevel, .text s | logFormat, .text s => some (.text s)
  | _, _ => none

/-- What is read for a setting at its place, where there may be nothing; `none` if it cannot be
read. -/
def read? (s : Setting) : Option Toml → Option (Option SettingValue)
  | none => some none
  | some t => (s.ofToml? t).map some

/-- What a document holds for a setting, if it holds anything; `none` if this cannot be read. A
section is a table or a list, and a date stands for a section without settings. -/
def inDocument? (s : Setting) (document : TomlMembers) : Option (Option SettingValue) :=
  match document.lookup s.sectionName with
  | none | some (.moment _) => some none
  | some (.table _ members) => s.read? (members.lookup s.key)
  | some (.array items) => s.read? items[s.place]?
  | some _ => none

end Setting

/-- The value of a setting. -/
def Settings.get (l : Settings) : Setting → SettingValue
  | .databasePath => .text l.databasePath
  | .queryLimit => .limit l.queryLimit
  | .aggregateLimit => .limit l.aggregateLimit
  | .logLevel => .text l.logLevel
  | .logFormat => .text l.logFormat

/-- What a file gives for a setting. -/
def FileSettings.get? (f : FileSettings) : Setting → Option SettingValue
  | .databasePath => f.databasePath.map .text
  | .queryLimit => f.queryLimit.map .limit
  | .aggregateLimit => f.aggregateLimit.map .limit
  | .logLevel => f.logLevel.map .text
  | .logFormat => f.logFormat.map .text

/-- What the variables give for a setting. -/
def Setting.ofVariables? (s : Setting) (value? : String → Option String) :
    Option SettingValue :=
  (s.variableName?.bind value?).map .text

section

variable {home : String} {value? : String → Option String} {f : FileSettings}

/-- The settings of a file are those it gives, and defaults. -/
theorem get_ofFile (s : Setting) :
    (Settings.ofFile home f).get s = (f.get? s).getD (s.default home) := by
  obtain ⟨path, queryLimit, aggregateLimit, level, format⟩ := f
  cases s with
  | databasePath => cases path <;> rfl
  | queryLimit => cases queryLimit <;> rfl
  | aggregateLimit => cases aggregateLimit <;> rfl
  | logLevel => cases level <;> rfl
  | logFormat => cases format <;> rfl

/-- Variables that are set replace their settings and no others. -/
theorem get_override (l : Settings) (s : Setting) :
    (l.override (.ofVariables value?)).get s = (s.ofVariables? value?).getD (l.get s) := by
  have htext : ∀ (o : Option String) (t : String),
      SettingValue.text (o.getD t) = (o.map SettingValue.text).getD (.text t) := by
    intro o t
    cases o <;> rfl
  cases s with
  | queryLimit => rfl
  | aggregateLimit => rfl
  | databasePath => exact htext _ _
  | logLevel => exact htext _ _
  | logFormat => exact htext _ _

end

/-! ### Documents -/

namespace FileSettings

/-- The keys of the section of a setting. -/
def keysOf : Setting → List String
  | .databasePath => ["path"]
  | .queryLimit | .aggregateLimit => ["default_limit", "default_aggregate_limit"]
  | .logLevel | .logFormat => ["level", "format"]

theorem inDocument?_eq (s : Setting) (document : TomlMembers) :
    s.inDocument? document = (section? document s.sectionName (keysOf s)).bind
      fun members => s.read? (members.getD s.place .none) := by
  unfold Setting.inDocument? section?
  cases document.lookup s.sectionName with
  | none => cases s <;> rfl
  | some t => cases t <;> cases s <;> rfl

/-- A value is read as that of a setting if it is read as one of its type. -/
theorem eq_some_iff_of_read?_eq_map {α : Type} {s : Setting} {o : Option Toml}
    {wrap : α → SettingValue} (hwrap : Function.Injective wrap) {read : Option (Option α)}
    (hread : s.read? o = read.map (Option.map wrap)) {value : Option α} :
    read = some value ↔ s.read? o = some (value.map wrap) := by
  rw [hread, Option.map_eq_some_iff]
  exact ⟨fun h => ⟨value, h, rfl⟩, fun ⟨v, h, heq⟩ => Option.map_injective hwrap heq ▸ h⟩

theorem text?_eq_some_iff {s : Setting} (hs : s = .databasePath ∨ s = .logLevel ∨ s = .logFormat)
    {o : Option Toml} {value : Option String} :
    text? o = some value ↔ s.read? o = some (value.map .text) := by
  refine eq_some_iff_of_read?_eq_map (fun a b h => SettingValue.text.inj h) ?_
  cases o with
  | none => rfl
  | some t => rcases hs with rfl | rfl | rfl <;> cases t <;> rfl

theorem limit?_eq_some_iff {s : Setting} (hs : s = .queryLimit ∨ s = .aggregateLimit)
    {o : Option Toml} {value : Option Int64} :
    limit? o = some value ↔ s.read? o = some (value.map .limit) := by
  refine eq_some_iff_of_read?_eq_map (fun a b h => SettingValue.limit.inj h) ?_
  cases o with
  | none => rfl
  | some t => rcases hs with rfl | rfl <;> cases t <;> rfl

/-- What stands at the places of all settings, section by section. -/
theorem forall_inDocument?_iff {document : TomlMembers} {f : FileSettings} :
    (∀ s : Setting, s.inDocument? document = some (f.get? s)) ↔
      ∃ database, section? document "database" ["path"] = some database ∧
      ∃ query, section? document "query" ["default_limit", "default_aggregate_limit"]
        = some query ∧
      ∃ logging, section? document "logging" ["level", "format"] = some logging ∧
        text? (database.getD 0 .none) = some f.databasePath ∧
        limit? (query.getD 0 .none) = some f.queryLimit ∧
        limit? (query.getD 1 .none) = some f.aggregateLimit ∧
        text? (logging.getD 0 .none) = some f.logLevel ∧
        text? (logging.getD 1 .none) = some f.logFormat := by
  simp only [inDocument?_eq, Option.bind_eq_some_iff]
  constructor
  · intro h
    obtain ⟨database, hdatabase, hpath⟩ := h .databasePath
    obtain ⟨query, hquery, hlimit⟩ := h .queryLimit
    obtain ⟨query', hquery', haggregate⟩ := h .aggregateLimit
    obtain ⟨logging, hlogging, hlevel⟩ := h .logLevel
    obtain ⟨logging', hlogging', hformat⟩ := h .logFormat
    -- Settings of one section are read from the same members.
    obtain rfl := Option.some.inj (hquery.symm.trans hquery')
    obtain rfl := Option.some.inj (hlogging.symm.trans hlogging')
    exact ⟨database, hdatabase, query, hquery, logging, hlogging,
      (text?_eq_some_iff (.inl rfl)).mpr hpath, (limit?_eq_some_iff (.inl rfl)).mpr hlimit,
      (limit?_eq_some_iff (.inr rfl)).mpr haggregate,
      (text?_eq_some_iff (.inr (.inl rfl))).mpr hlevel,
      (text?_eq_some_iff (.inr (.inr rfl))).mpr hformat⟩
  · rintro ⟨database, hdatabase, query, hquery, logging, hlogging, hpath, hlimit, haggregate,
      hlevel, hformat⟩ s
    cases s with
    | databasePath => exact ⟨database, hdatabase, (text?_eq_some_iff (.inl rfl)).mp hpath⟩
    | queryLimit => exact ⟨query, hquery, (limit?_eq_some_iff (.inl rfl)).mp hlimit⟩
    | aggregateLimit => exact ⟨query, hquery, (limit?_eq_some_iff (.inr rfl)).mp haggregate⟩
    | logLevel => exact ⟨logging, hlogging, (text?_eq_some_iff (.inr (.inl rfl))).mp hlevel⟩
    | logFormat => exact ⟨logging, hlogging, (text?_eq_some_iff (.inr (.inr rfl))).mp hformat⟩

/-- **What a document gives**: it is accepted just if it can be read at the place of every setting,
and gives what it holds there. -/
theorem ofToml?_eq_some_iff {document : TomlMembers} {f : FileSettings} :
    ofToml? document = some f ↔ ∀ s : Setting, s.inDocument? document = some (f.get? s) := by
  rw [forall_inDocument?_iff]
  unfold ofToml?
  simp only [Option.bind_eq_bind, Option.bind_eq_some_iff, Option.pure_def, Option.some.injEq]
  constructor
  · rintro ⟨database, hdatabase, query, hquery, logging, hlogging, path, hpath, limit, hlimit,
      aggregate, haggregate, level, hlevel, format, hformat, rfl⟩
    exact ⟨database, hdatabase, query, hquery, logging, hlogging, hpath, hlimit, haggregate, hlevel,
      hformat⟩
  · rintro ⟨database, hdatabase, query, hquery, logging, hlogging, hpath, hlimit, haggregate,
      hlevel, hformat⟩
    exact ⟨database, hdatabase, query, hquery, logging, hlogging, _, hpath, _, hlimit, _,
      haggregate, _, hlevel, _, hformat, rfl⟩

/-- Any choice of settings can be given. -/
theorem exists_ofToml?_eq_some (f : FileSettings) : ∃ document, ofToml? document = some f := by
  obtain ⟨path, queryLimit, aggregateLimit, level, format⟩ := f
  refine ⟨[
    ("database", .table .header (path.map fun s => ("path", .text s)).toList),
    ("query", .table .header ((queryLimit.map fun i => ("default_limit", .integer i)).toList
      ++ (aggregateLimit.map fun i => ("default_aggregate_limit", .integer i)).toList)),
    ("logging", .table .header ((level.map fun s => ("level", .text s)).toList
      ++ (format.map fun s => ("format", .text s)).toList))], ?_⟩
  refine ofToml?_eq_some_iff.mpr fun s => ?_
  cases s with
  | databasePath => cases path <;> rfl
  | queryLimit => cases queryLimit <;> cases aggregateLimit <;> rfl
  | aggregateLimit => cases queryLimit <;> cases aggregateLimit <;> rfl
  | logLevel => cases level <;> cases format <;> rfl
  | logFormat => cases level <;> cases format <;> rfl

end FileSettings

/-! ### Files -/

/-- A file gives settings: its text is a document that holds, at the place of every setting, what is
given for this setting. -/
def Folder.Gives (folder : Folder) (path : String) (f : FileSettings) : Prop :=
  ∃ text document, folder.target path = .file (.text text) ∧ Toml.read? text = some document ∧
    ∀ s : Setting, s.inDocument? document = some (f.get? s)

/-- How a file is noted that gives no settings; what is not there is not noted. -/
def Folder.rejection? (folder : Folder) (path : String) : Option Rejection :=
  match folder.target path with
  | .file (.text _) => some ⟨path, .malformed⟩
  | .file (.database _) | .file .unreadable | .folder => some ⟨path, .unreadable⟩
  | .nothing | .blocked => none

section

variable {folder : Folder} {path home : String} {f : FileSettings} {e : Environment}

theorem FileSettings.ofText_eq_ok_iff {text : String} :
    ofText text = .ok f ↔ ∃ document, Toml.read? text = some document ∧
      ∀ s : Setting, s.inDocument? document = some (f.get? s) := by
  simp only [← ofToml?_eq_some_iff, ← Option.bind_eq_some_iff]
  unfold ofText
  cases (Toml.read? text).bind ofToml? with
  | none => simp
  | some g => simp

theorem FileSettings.ofText_of_not_ok {text : String} (h : ∀ f, ofText text ≠ .ok f) :
    ofText text = .error .malformed := by
  unfold ofText at h ⊢
  split
  · next hsome =>
    rw [hsome] at h
    exact absurd rfl (h _)
  · rfl

theorem content_at_eq_ok_iff :
    (Candidate.at folder path).content = some (.ok f) ↔ folder.Gives path f := by
  show FileSettings.ofTarget? (folder.target path) = some (.ok f) ↔ _
  unfold Folder.Gives
  cases folder.target path with
  | file content =>
    cases content with
    | text text =>
      show some (FileSettings.ofText text) = some (.ok f) ↔ _
      rw [Option.some.injEq, FileSettings.ofText_eq_ok_iff]
      simp
    | database db => simp [FileSettings.ofTarget?]
    | unreadable => simp [FileSettings.ofTarget?]
  | folder => simp [FileSettings.ofTarget?]
  | nothing => simp [FileSettings.ofTarget?]
  | blocked => simp [FileSettings.ofTarget?]

theorem content_at_of_not_gives (h : ∀ f, ¬ folder.Gives path f) :
    (Candidate.at folder path).content = (folder.rejection? path).map fun r => .error r.fault := by
  simp only [← content_at_eq_ok_iff] at h
  change ∀ f, FileSettings.ofTarget? (folder.target path) ≠ some (.ok f) at h
  show FileSettings.ofTarget? (folder.target path) = _
  unfold Folder.rejection?
  cases htarget : folder.target path with
  | file content =>
    cases content with
    | text text =>
      rw [htarget] at h
      show some (FileSettings.ofText text) = some (.error .malformed)
      exact congrArg some (FileSettings.ofText_of_not_ok fun f hf => h f (congrArg some hf))
    | database db => rfl
    | unreadable => rfl
  | folder => rfl
  | nothing => rfl
  | blocked => rfl

theorem path_of_rejection? {r : Rejection} (h : folder.rejection? path = some r) :
    r.path = path := by
  unfold Folder.rejection? at h
  split at h
  · exact (Option.some.inj h) ▸ rfl
  · exact (Option.some.inj h) ▸ rfl
  · exact (Option.some.inj h) ▸ rfl
  · exact (Option.some.inj h) ▸ rfl
  · exact absurd h (by rintro ⟨⟩)
  · exact absurd h (by rintro ⟨⟩)

/-! ### The search -/

namespace LoadedSettings

/-- A place that gives settings ends the search. -/
theorem first_of_gives (h : folder.Gives path f) (rest : List Candidate) :
    first home e (Candidate.at folder path :: rest)
      = ⟨(Settings.ofFile home f).override e, some path, []⟩ := by
  rw [first, content_at_eq_ok_iff.mpr h]
  rfl

/-- A place that gives none is noted, if something is there, and passed over. -/
theorem first_of_not_gives (h : ∀ f, ¬ folder.Gives path f) (rest : List Candidate) :
    first home e (Candidate.at folder path :: rest)
      = { first home e rest with
          rejected := (folder.rejection? path).toList ++ (first home e rest).rejected } := by
  rw [first, content_at_of_not_gives h]
  cases hr : folder.rejection? path with
  | none => rfl
  | some r =>
    have hpath := path_of_rejection? hr
    subst hpath
    rfl

/-- **The search over places that give no settings**: they are noted in their order, and nothing
else is left of them. -/
theorem first_append {before : List String} (h : ∀ q ∈ before, ∀ f, ¬ folder.Gives q f)
    (rest : List Candidate) :
    first home e (before.map (Candidate.at folder) ++ rest)
      = { first home e rest with
          rejected := before.filterMap folder.rejection? ++ (first home e rest).rejected } := by
  induction before with
  | nil => rfl
  | cons q before ih =>
    rw [List.forall_mem_cons] at h
    rw [List.map_cons, List.cons_append, first_of_not_gives h.1, ih h.2, List.filterMap_cons]
    cases folder.rejection? q <;> rfl

/-- What is found at given places. -/
def found (folder : Folder) (home : String) (value? : String → Option String)
    (paths : List String) : LoadedSettings :=
  first home (.ofVariables value?) (paths.map (Candidate.at folder))

variable {value? : String → Option String} {before after paths : List String}

theorem found_of_gives (hbefore : ∀ q ∈ before, ∀ g, ¬ folder.Gives q g)
    (h : folder.Gives path f) : found folder home value? (before ++ path :: after)
      = ⟨(Settings.ofFile home f).override (.ofVariables value?), some path,
        before.filterMap folder.rejection?⟩ := by
  unfold found
  rw [List.map_append, first_append hbefore, List.map_cons, first_of_gives h, List.append_nil]

theorem found_of_not_gives (h : ∀ q ∈ paths, ∀ g, ¬ folder.Gives q g) :
    found folder home value? paths
      = ⟨(Settings.default home).override (.ofVariables value?), none,
        paths.filterMap folder.rejection?⟩ := by
  unfold found
  rw [← List.append_nil (paths.map _), first_append h, first, List.append_nil]

/-- Some place is the first to give settings, or none gives any. -/
theorem exists_first_or_not (folder : Folder) (paths : List String) :
    (∃ before path after f, paths = before ++ path :: after ∧
      (∀ q ∈ before, ∀ g, ¬ folder.Gives q g) ∧ folder.Gives path f) ∨
    ∀ q ∈ paths, ∀ g, ¬ folder.Gives q g := by
  induction paths with
  | nil => exact Or.inr fun q hq => absurd hq List.not_mem_nil
  | cons p paths ih =>
    by_cases hp : ∃ f, folder.Gives p f
    · obtain ⟨f, hf⟩ := hp
      exact Or.inl ⟨[], p, paths, f, rfl, fun q hq => absurd hq List.not_mem_nil, hf⟩
    · have hp := not_exists.mp hp
      rcases ih with ⟨before, path, after, f, rfl, hbefore, hf⟩ | hnone
      · exact Or.inl ⟨p :: before, path, after, f, rfl, List.forall_mem_cons.mpr ⟨hp, hbefore⟩, hf⟩
      · exact Or.inr (List.forall_mem_cons.mpr ⟨hp, hnone⟩)

/-- What places without settings hold has no part in the settings, nor in where they come from. -/
theorem found_congr {folder' : Folder}
    (h : ∀ q ∈ paths, ∀ g, folder'.Gives q g ↔ folder.Gives q g) :
    (found folder' home value? paths).settings = (found folder home value? paths).settings ∧
      (found folder' home value? paths).path = (found folder home value? paths).path := by
  rcases exists_first_or_not folder paths with ⟨before, path, after, f, rfl, hbefore, hf⟩ | hnone
  · have hbefore' : ∀ q ∈ before, ∀ g, ¬ folder'.Gives q g := fun q hq g hg =>
      hbefore q hq g ((h q (List.mem_append_left _ hq) g).mp hg)
    have hf' : folder'.Gives path f :=
      (h path (List.mem_append_right _ List.mem_cons_self) f).mpr hf
    rw [found_of_gives hbefore hf, found_of_gives hbefore' hf']
    exact ⟨rfl, rfl⟩
  · have hnone' : ∀ q ∈ paths, ∀ g, ¬ folder'.Gives q g := fun q hq g hg =>
      hnone q hq g ((h q hq g).mp hg)
    rw [found_of_not_gives hnone, found_of_not_gives hnone']
    exact ⟨rfl, rfl⟩

/-- **Precedence of settings.** The first place that gives settings is picked, and of the places
before it exactly those are noted at which something is. Each setting is that of its variable, if
this is set, else that of the picked file, else the default; without a file it is that of its
variable or the default. Places that give no settings have no other effect. -/
theorem precedence (folder : Folder) (home : String) (value? : String → Option String)
    (paths : List String) :
    ((∃ before path after f, paths = before ++ path :: after ∧
        (∀ q ∈ before, ∀ g, ¬ folder.Gives q g) ∧ folder.Gives path f ∧
        (found folder home value? paths).path = some path ∧
        (found folder home value? paths).rejected = before.filterMap folder.rejection? ∧
        ∀ s, (found folder home value? paths).settings.get s
          = ((s.ofVariables? value?).or (f.get? s)).getD (s.default home)) ∨
      (∀ q ∈ paths, ∀ g, ¬ folder.Gives q g) ∧
        (found folder home value? paths).path = none ∧
        (found folder home value? paths).rejected = paths.filterMap folder.rejection? ∧
        ∀ s, (found folder home value? paths).settings.get s
          = (s.ofVariables? value?).getD (s.default home)) ∧
    ∀ folder' : Folder, (∀ q ∈ paths, ∀ g, folder'.Gives q g ↔ folder.Gives q g) →
      (found folder' home value? paths).settings = (found folder home value? paths).settings ∧
        (found folder' home value? paths).path = (found folder home value? paths).path := by
  refine ⟨?_, fun folder' h => found_congr h⟩
  rcases exists_first_or_not folder paths with ⟨before, path, after, f, rfl, hbefore, hf⟩ | hnone
  · refine Or.inl ⟨before, path, after, f, rfl, hbefore, hf, ?_⟩
    rw [found_of_gives hbefore hf]
    refine ⟨rfl, rfl, fun s => ?_⟩
    rw [get_override, get_ofFile]
    cases s.ofVariables? value? <;> rfl
  · refine Or.inr ⟨hnone, ?_⟩
    rw [found_of_not_gives hnone]
    refine ⟨rfl, rfl, fun s => ?_⟩
    have hempty : FileSettings.none.get? s = none := by cases s <;> rfl
    rw [get_override, Settings.default, get_ofFile, hempty]
    rfl

/-- The search of the program looks at the usual places. -/
theorem search_eq_found (folder : Folder) (home : String) (value? : String → Option String) :
    search folder home (.ofVariables value?)
      = found folder home value? (candidatePaths home) := rfl

end LoadedSettings

end

end GraphIndex
