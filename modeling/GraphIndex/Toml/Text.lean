import GraphIndex.Number.Numeral

/-!
# Texts in TOML documents

Strings stand between one or three quotes; between double quotes a backslash begins an escape.
Every reader takes the front of a text and returns what follows.
-/

namespace GraphIndex.TomlText

/-- Tabs and blanks. -/
def isBlank (c : Char) : Bool := c = ' ' ∨ c = '\t'

/-- A character that may stand in a comment or a string: a tab, or no control character. -/
def isPlain (c : Char) : Bool := c = '\t' ∨ (0x20 ≤ c.toNat ∧ c.toNat ≠ 0x7f)

/-- The double quote and the single quote. -/
def doubleQuote : Char := '\x22'

def singleQuote : Char := '\x27'

/-- What follows the end of a line. -/
def newline? : List Char → Option (List Char)
  | '\n' :: s => some s
  | '\r' :: '\n' :: s => some s
  | _ => none

/-- A character by its number in hexadecimal digits. -/
def scalar? (ds : List Char) : Option Char :=
  if ds.all fun c => c.isDigit || ('a' ≤ c && c ≤ 'f') || ('A' ≤ c && c ≤ 'F') then
    let digit (c : Char) : Nat :=
      if c.isDigit then c.toNat - 48 else if c.toNat < 97 then c.toNat - 55 else c.toNat - 87
    let n := ds.foldl (fun n c => 16 * n + digit c) 0
    if h : n.isValidChar then some (Char.ofNatAux n h) else none
  else none

/-- The character of an escape, the backslash read already. -/
def escape? : List Char → Option (Char × List Char)
  | 'b' :: s => some ('\x08', s)
  | 't' :: s => some ('\t', s)
  | 'n' :: s => some ('\n', s)
  | 'f' :: s => some ('\x0c', s)
  | 'r' :: s => some ('\r', s)
  | '\\' :: s => some ('\\', s)
  | 'u' :: a :: b :: c :: d :: s => (scalar? [a, b, c, d]).map fun x => (x, s)
  | 'U' :: a :: b :: c :: d :: e :: f :: g :: h :: s =>
    (scalar? [a, b, c, d, e, f, g, h]).map fun x => (x, s)
  | q :: s => if q = doubleQuote then some (doubleQuote, s) else none
  | [] => none

/-- The rest of a string on one line; `escapes` says whether the backslash begins an escape. -/
def line (quote : Char) (escapes : Bool) : Nat → List Char → Option (List Char × List Char)
  | 0, _ => none
  | _, [] => none
  | fuel + 1, c :: s =>
    if c = quote then some ([], s)
    else if escapes && c == '\\' then do
      let (x, s) ← escape? s
      let (cs, s) ← line quote escapes fuel s
      return (x :: cs, s)
    else if isPlain c then do
      let (cs, s) ← line quote escapes fuel s
      return (c :: cs, s)
    else none

/-- Passes over blanks and ends of lines. -/
def skipLines : Nat → List Char → List Char
  | 0, s => s
  | fuel + 1, s =>
    let s := s.dropWhile isBlank
    match newline? s with
    | some s => skipLines fuel s
    | none => s

/-- The end of a string in triple quotes: of up to five quotes the last three close it. -/
def closing? (quote : Char) (s : List Char) : Option (List Char × List Char) :=
  let quotes := (s.take 5).takeWhile (· == quote)
  if quotes.length < 3 then none
  else some (quotes.drop 3, s.drop quotes.length)

/-- The rest of a string in triple quotes. A backslash at the end of a line passes over the blanks
and ends of lines that follow. -/
def lines (quote : Char) (escapes : Bool) : Nat → List Char → Option (List Char × List Char)
  | 0, _ => none
  | fuel + 1, s =>
    match closing? quote s with
    | some end? => some end?
    | none =>
      match newline? s with
      | some s => do
        let (cs, s) ← lines quote escapes fuel s
        return ('\n' :: cs, s)
      | none =>
        match s with
        | [] => none
        | c :: s =>
          if escapes && c == '\\' then
            match escape? s with
            | some (x, s) => do
              let (cs, s) ← lines quote escapes fuel s
              return (x :: cs, s)
            | none => do
              let s ← newline? (s.dropWhile isBlank)
              lines quote escapes fuel (skipLines (s.length + 1) s)
          else if isPlain c then do
            let (cs, s) ← lines quote escapes fuel s
            return (c :: cs, s)
          else none

/-- A string on one line, if the text begins with a quote. -/
def string? : List Char → Option (List Char × List Char)
  | q :: s =>
    if q = doubleQuote then line q true (s.length + 1) s
    else if q = singleQuote then line q false (s.length + 1) s
    else none
  | [] => none

/-- The rest of a string in triple quotes; an end of line behind the quotes is passed over. -/
def tripleRest (quote : Char) (s : List Char) : Option (List Char × List Char) :=
  lines quote (quote == doubleQuote) (s.length + 1) ((newline? s).getD s)

/-- A string in single or in triple quotes. -/
def value? (s : List Char) : Option (List Char × List Char) :=
  match s with
  | q :: q' :: q'' :: rest =>
    if (q = doubleQuote ∨ q = singleQuote) ∧ q = q' ∧ q = q'' then tripleRest q rest else string? s
  | s => string? s

/-! ### Writing -/

/-- How a character stands between double quotes; ends of lines stay in triple quotes. -/
def escaped (keepsLines : Bool) (c : Char) : List Char :=
  if c.toNat = 8 then ['\\', 'b']
  else if c = '\t' then ['\\', 't']
  else if c = '\n' then if keepsLines then ['\n'] else ['\\', 'n']
  else if c.toNat = 12 then ['\\', 'f']
  else if c = '\r' then ['\\', 'r']
  else if c = doubleQuote ∨ c = '\\' then ['\\', c]
  else if c.toNat < 0x20 ∨ c.toNat = 0x7f then
    ['\\', 'u', '0', '0', (Nat.digitChar (c.toNat / 16)).toUpper,
      (Nat.digitChar (c.toNat % 16)).toUpper]
  else [c]

/-- The longest run of single quotes in a text, `run` of them just before it. -/
def longestRun (run : Nat) : List Char → Nat
  | [] => run
  | c :: s => if c = singleQuote then longestRun (run + 1) s else max run (longestRun 0 s)

/-- Whether a text can and should stand between single quotes, where nothing is escaped: it has
double quotes or backslashes, no control characters, and no single quotes that would close it. -/
def prefersLiteral (s : List Char) : Bool :=
  s.any (fun c => c == doubleQuote || c == '\\')
    && s.all (fun c => isPlain c || c == '\n')
    && decide (longestRun 0 s < 3) && s.getLast? != some singleQuote

/-- A text as a string of a document: between single quotes where that spares escapes, in triple
quotes if it has several lines or single quotes between single quotes. -/
def quote (text : String) : String :=
  let s := text.toList
  let hasLines := s.contains '\n'
  let literal := prefersLiteral s
  let mark := if literal then singleQuote else doubleQuote
  let isTriple := hasLines || (literal && decide (1 ≤ longestRun 0 s))
  let marks := List.replicate (if isTriple then 3 else 1) mark
  let start := if hasLines then marks ++ ['\n'] else marks
  let body := if literal then s else s.flatMap (escaped hasLines)
  .ofList (start ++ body ++ marks)

end GraphIndex.TomlText
