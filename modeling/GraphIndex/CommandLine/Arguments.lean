import GraphIndex.Number.Numeral
import GraphIndex.Text.Split

/-!
# Arguments of the command line

A command line names one command. Options stand before or behind it, in long form with their value
behind a blank or an equals sign, or in short form; behind two hyphens everything is a plain
argument. `CommandLine.read` reads a list of arguments and refuses what it does not know, what is
given twice, and what is missing.
-/

namespace GraphIndex.CommandLine

/-- The options of the program. -/
inductive Flag where
  | database
  | config
  | pretty
  | json
  | find
  | groupBy
  | conditions
  | top
  | percent
  | limit
  deriving DecidableEq, Repr

namespace Flag

/-- The long name of an option. -/
def name : Flag → String
  | database => "db"
  | config => "config"
  | pretty => "pretty"
  | json => "json"
  | find => "find"
  | groupBy => "group-by"
  | conditions => "where"
  | top => "top"
  | percent => "percent"
  | limit => "limit"

/-- Whether an option has a value. -/
def takesValue : Flag → Bool
  | pretty | percent => false
  | _ => true

/-- Whether a text may be the value of an option: paths are not empty, counts are numbers. -/
def admits : Flag → List Char → Bool
  | database, s | config, s => !s.isEmpty
  | top, s | limit, s => (Numeral.int64? s).isSome
  | _, _ => true

/-- The options that every command has. -/
def everywhere : List Flag := [database, config, pretty]

end Flag

/-- Why a command line is not carried out. -/
inductive Stop where
  /-- It is not understood. -/
  | usage
  | help
  | version
  deriving DecidableEq, Repr

/-- Options with their values, and plain arguments, in the order in which they were met. -/
structure Given where
  flags : List (Flag × String)
  plain : List String
  deriving Repr

namespace Given

def nothing : Given := ⟨[], []⟩

/-- Whether an option is given. -/
def has (g : Given) (f : Flag) : Bool := g.flags.any fun (f', _) => f' == f

/-- The value of an option. -/
def value? (g : Given) (f : Flag) : Option String := g.flags.lookup f

/-- The value of an option that is a number. -/
def number? (g : Given) (f : Flag) : Option Int64 :=
  (g.value? f).bind fun s => Numeral.int64? s.toList

/-- Adds an option that is not there yet. -/
def addFlag (g : Given) (f : Flag) (value : List Char) : Except Stop Given :=
  if g.has f || !f.admits value then .error .usage
  else .ok { g with flags := g.flags ++ [(f, .ofList value)] }

def addPlain (g : Given) (argument : String) : Given := { g with plain := g.plain ++ [argument] }

/-- Options of two places; those of the second come first. -/
def overriddenBy (outer inner : Given) : Given :=
  { inner with flags := inner.flags ++ outer.flags }

end Given

/-! ### One argument -/

/-- What an argument is. -/
inductive Argument where
  | plain
  /-- Two hyphens. -/
  | separator
  | help
  | version
  /-- An option, with a value if one is attached to it. -/
  | flag (flag : Flag) (attached : Option (List Char))
  | unknown

/-- What a long option is; `known` are the options that may stand here. -/
def longArgument (known : List Flag) (isRoot : Bool) (s : List Char) : Argument :=
  let (word, attached) :=
    match Text.cutAt? '=' s with
    | some (word, value) => (word, some value)
    | none => (s, none)
  match known.find? fun f => f.name.toList == word with
  | some f => .flag f attached
  | none =>
    if attached.isSome then .unknown
    else if word = "help".toList then .help
    else if isRoot && word == "version".toList then .version
    else .unknown

/-- What a short option is. -/
def shortArgument (isRoot : Bool) : List Char → Argument
  | 'c' :: [] => .flag .config none
  | 'c' :: '=' :: value => .flag .config (some value)
  | 'c' :: value => .flag .config (some value)
  | 'h' :: _ => .help
  | 'V' :: _ => if isRoot then .version else .unknown
  | _ => .unknown

/-- What an argument is; a single hyphen is a plain one. -/
def Argument.of (known : List Flag) (isRoot : Bool) (argument : String) : Argument :=
  match argument.toList with
  | ['-', '-'] => .separator
  | '-' :: '-' :: s => longArgument known isRoot s
  | '-' :: c :: s => shortArgument isRoot (c :: s)
  | _ => .plain

/-! ### All arguments -/

/-- Reads the arguments of one level: options, and plain arguments up to `atMost`. The root level
ends at its first plain argument; what follows that is returned. -/
def readLevel (known : List Flag) (isRoot : Bool) (atMost : Nat) (given : Given) :
    List String → Except Stop (Given × List String)
  | [] => .ok (given, [])
  | argument :: rest =>
    match Argument.of known isRoot argument with
    | .unknown => .error .usage
    | .help => .error .help
    | .version => .error .version
    | .separator =>
      -- Behind the separator every argument is a plain one.
      if isRoot || atMost < given.plain.length + rest.length then .error .usage
      else .ok ({ given with plain := given.plain ++ rest }, [])
    | .plain =>
      if isRoot then .ok (given, argument :: rest)
      else if given.plain.length < atMost then
        readLevel known isRoot atMost (given.addPlain argument) rest
      else .error .usage
    | .flag f attached =>
      match f.takesValue, attached with
      | true, some value => do
        let given ← given.addFlag f value
        readLevel known isRoot atMost given rest
      | false, none => do
        let given ← given.addFlag f []
        readLevel known isRoot atMost given rest
      | false, some _ => .error .usage
      | true, none =>
        match rest with
        | [] => .error .usage
        | value :: rest =>
          match value.toList with
          -- What looks like an option is no value; a single hyphen is one.
          | '-' :: _ :: _ => .error .usage
          | value => do
            let given ← given.addFlag f value
            readLevel known isRoot atMost given rest

/-- What a query is given as. -/
inductive QuerySource where
  | text (text : String)
  | json (text : String)
  deriving DecidableEq, Repr

/-- The commands of the program. -/
inductive Command where
  | query (source : QuerySource)
  | aggregate (find groupBy : String) (conditions : Option String) (top : Option Int64)
    (percent : Bool) (limit : Option Int64)
  | count (tag : String)
  | initSchema
  | config
  deriving DecidableEq, Repr

/-- A command with the options that every command has. -/
structure Invocation where
  command : Command
  database : Option String
  config : Option String
  pretty : Bool
  deriving DecidableEq, Repr

/-- A kind of command: its options, the number of its plain arguments, and what is made of them. -/
structure CommandKind where
  name : String
  flags : List Flag
  atMost : Nat
  make : Given → Option Command

/-- A query stands in the argument or in an option, not in both. -/
def makeQuery (g : Given) : Option Command :=
  match g.plain, g.value? .json with
  | [text], none => some (.query (.text text))
  | [], some json => some (.query (.json json))
  | _, _ => none

def makeAggregate (g : Given) : Option Command := do
  let find ← g.value? .find
  let groupBy ← g.value? .groupBy
  return .aggregate find groupBy (g.value? .conditions) (g.number? .top) (g.has .percent)
    (g.number? .limit)

def makeCount (g : Given) : Option Command :=
  match g.plain with
  | [tag] => some (.count tag)
  | _ => none

/-- All kinds of commands. -/
def commandKinds : List CommandKind := [
  ⟨"query", [.json], 1, makeQuery⟩,
  ⟨"aggregate", [.find, .groupBy, .conditions, .top, .percent, .limit], 0, makeAggregate⟩,
  ⟨"count", [], 1, makeCount⟩,
  ⟨"init-schema", [], 0, fun _ => some .initSchema⟩,
  ⟨"config", [], 0, fun _ => some .config⟩]

/-- Reads the arguments behind the name of a command. -/
def readCommand (outer : Given) (kind : CommandKind) (arguments : List String) :
    Except Stop Invocation := do
  let (inner, _) ← readLevel (kind.flags ++ Flag.everywhere) false kind.atMost .nothing arguments
  match kind.make inner with
  | none => .error .usage
  | some command =>
    let g := outer.overriddenBy inner
    return ⟨command, g.value? .database, g.value? .config, g.has .pretty⟩

/-- Whether there is help on topics: on all commands together or on one of them. -/
def hasHelp : List String → Bool
  | [] => true
  | [topic] => topic == "help" || commandKinds.any fun kind => kind.name == topic
  | _ => false

/-- Reads a command line. -/
def read (arguments : List String) : Except Stop Invocation := do
  let (outer, rest) ← readLevel Flag.everywhere true 0 .nothing arguments
  match rest with
  | [] => .error .usage
  | name :: rest =>
    if name = "help" then .error (if hasHelp rest then .help else .usage)
    else
      match commandKinds.find? fun kind => kind.name == name with
      | some kind => readCommand outer kind rest
      | none => .error .usage

end GraphIndex.CommandLine
