import GraphIndex.Number.Numeral
import GraphIndex.Query.Operand
import GraphIndex.Query.Operator
import GraphIndex.Text.Alphanumeric

/-!
# The words of the query language

Readers for the smallest parts of a query text: spaces, keywords, names, quoted texts, operators
and values. Each takes its part from the front of the text and gives the rest, or refuses.
-/

namespace GraphIndex.Language

/-- The spaces between words. -/
def isSpace (c : Char) : Bool := c == ' ' || c == '\t' || c == '\r' || c == '\n'

/-- Passes over any spaces. -/
def spaces (s : List Char) : List Char := s.dropWhile isSpace

/-- Passes over spaces, at least one. -/
def someSpaces : List Char → Option (List Char)
  | [] => none
  | c :: s => if isSpace c then some (spaces s) else none

/-- Reads one fixed character. -/
def symbol (c : Char) : List Char → Option (List Char)
  | [] => none
  | d :: s => if d = c then some s else none

/-- Reads a word, letter case aside. -/
def wordPart : List Char → List Char → Option (List Char)
  | [], s => some s
  | _ :: _, [] => none
  | w :: word, c :: s => if c.toLower = w then wordPart word s else none

/-- Whether a character continues a word. -/
def isWordChar (c : Char) : Bool := Text.isAlphanumeric c || c == '_' || c == '.'

/-- Whether a text begins with a character that continues a word. -/
def continuesWord : List Char → Bool
  | [] => false
  | c :: _ => isWordChar c

/-- Reads a keyword, letter case aside, that does not go on as a longer word. -/
def keyword (word : String) (s : List Char) : Option (List Char) := do
  let s ← wordPart word.toList s
  if continuesWord s then none else some s

/-- Whether a character may begin a name. -/
def startsName (c : Char) : Bool := Text.isAlphanumeric c || c == '_'

/-- Whether a character may stand in a name after its beginning. -/
def inName (c : Char) : Bool := Text.isAlphanumeric c || c == '_' || c == '.' || c == '-'

/-- Reads a bare name. -/
def name : List Char → Option (String × List Char)
  | [] => none
  | c :: s =>
    if startsName c then some (.ofList (c :: s.takeWhile inName), s.dropWhile inName) else none

/-- Reads a text up to a closing quote. -/
def quotedRest (quote : Char) (s : List Char) : Option (String × List Char) :=
  match s.dropWhile (· != quote) with
  | [] => none
  | _ :: rest => some (.ofList (s.takeWhile (· != quote)), rest)

/-- Reads a text between double or between single quotes. -/
def quoted : List Char → Option (String × List Char)
  | '"' :: s => quotedRest '"' s
  | '\x27' :: s => quotedRest '\x27' s
  | _ => none

/-- Reads the name of a field, quoted or bare. -/
def field (s : List Char) : Option (String × List Char) := quoted s <|> name s

/-- Reads an operator between a field and a value. -/
def operator : List Char → Option (Operator × List Char)
  | '>' :: '=' :: s => some (.compare .atLeast, s)
  | '<' :: '=' :: s => some (.compare .atMost, s)
  | '!' :: '=' :: s => some (.compare .notEqual, s)
  | '<' :: '>' :: s => some (.compare .notEqual, s)
  | '=' :: '=' :: s => some (.compare .equal, s)
  | '=' :: s => some (.compare .equal, s)
  | '>' :: s => some (.compare .greater, s)
  | '<' :: s => some (.compare .less, s)
  | '~' :: s => some (.contains, s)
  | _ => none

/-- Whether a character may stand in a bare value. -/
def inValue (c : Char) : Bool := !Text.isBlank c && c != '(' && c != ')'

/-- Whether a character may stand in a bare double. -/
def inDouble (c : Char) : Bool := c.isDigit || c == '.' || c == '-'

/-- What a bare value denotes: a whole number, a double, or its own text. -/
def classify (token : List Char) : Operand :=
  match Numeral.int64? token with
  | some i => .integer i
  | none =>
    match (if token.all inDouble then Numeral.binary64? token else none) with
    | some x => .real x
    | none => .text (.ofList token)

/-- Reads a bare value. -/
def bareValue (s : List Char) : Option (Operand × List Char) :=
  match s.takeWhile inValue with
  | [] => none
  | token => some (classify token, s.dropWhile inValue)

/-- Reads a value, quoted or bare. -/
def value (s : List Char) : Option (Operand × List Char) :=
  (quoted s).map (fun (t, rest) => (.text t, rest)) <|> bareValue s

/-- Reads a count of at most sixty-four bits. -/
def count (s : List Char) : Option (Int64 × List Char) := do
  let (ds, rest) := Numeral.spanDigits s
  let n ← Numeral.int64? ds
  some (n, rest)

end GraphIndex.Language
