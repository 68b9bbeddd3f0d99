import GraphIndex.Calendar.Date
import GraphIndex.Toml.Basic
import GraphIndex.Toml.Text

/-!
# Reading TOML documents

`Toml.read?` reads a document line by line: headers open tables, pairs enter a value under a plain
or dotted key. Every reader takes the front of a text and returns what follows.
-/

namespace GraphIndex.Toml

open TomlText

/-- How deep values may be nested. -/
def nestingLimit : Nat := 79

/-! ### Numbers -/

/-- The rest of a run of digits, single underscores between them. -/
def moreDigits (isDigit : Char → Bool) : Nat → List Char → List Char × List Char
  | 0, s => ([], s)
  | fuel + 1, s =>
    match s with
    | '_' :: c :: rest =>
      if isDigit c then
        let (ds, rest) := moreDigits isDigit fuel rest
        (c :: ds, rest)
      else ([], s)
    | c :: rest =>
      if isDigit c then
        let (ds, rest) := moreDigits isDigit fuel rest
        (c :: ds, rest)
      else ([], s)
    | [] => ([], s)

/-- A run of digits, single underscores between them. -/
def digits? (isDigit : Char → Bool) : List Char → Option (List Char × List Char)
  | c :: s =>
    if isDigit c then
      let (ds, s) := moreDigits isDigit (s.length + 1) s
      some (c :: ds, s)
    else none
  | [] => none

/-- Decimal digits without a zero in front. -/
def decimal? : List Char → Option (List Char × List Char)
  | '0' :: s => some (['0'], s)
  | s => digits? Char.isDigit s

/-- The value of a digit of some base up to sixteen. -/
def digitOf (c : Char) : Nat :=
  if c.isDigit then c.toNat - 48 else if c.toNat < 97 then c.toNat - 55 else c.toNat - 87

/-- An integer of sixty-four bits. -/
def integerOf (i : Int) : Option Toml :=
  if fitsInt64 i then some (.integer (Int64.ofInt i)) else none

/-- An integer behind the mark of its base. -/
def based? (base : Nat) (s : List Char) : Option (Toml × List Char) := do
  let isDigit (c : Char) : Bool :=
    (c.isDigit || ('a' ≤ c && c ≤ 'f') || ('A' ≤ c && c ≤ 'F')) && digitOf c < base
  let (ds, s) ← digits? isDigit s
  let i ← integerOf (ds.foldl (fun n c => base * n + digitOf c) 0 : Nat)
  return (i, s)

/-- The digits behind a point. -/
def fraction? : List Char → Option (List Char × List Char)
  | '.' :: s => digits? Char.isDigit s
  | _ => none

/-- The exponent of a number. -/
def exponent? : List Char → Option (Int × List Char)
  | c :: s =>
    if c = 'e' ∨ c = 'E' then do
      let (negative, s) := Numeral.spanSign s
      let (ds, s) ← digits? Char.isDigit s
      return (Numeral.signed negative (Numeral.value ds), s)
    else none
  | [] => none

/-- A finite double. -/
def realOf (x : Binary64) : Option Toml := if x.isFinite then some (.real x) else none

/-- A number behind its sign. -/
def unsigned? (negative : Bool) (s : List Char) : Option (Toml × List Char) := do
  let (whole, rest) ← decimal? s
  match fraction? rest, rest with
  | some (ds, rest), _ =>
    let (e, rest) := (exponent? rest).getD (0, rest)
    let x ← realOf (.ofDecimal negative (Numeral.value (whole ++ ds)) (e - ds.length))
    return (x, rest)
  -- A point without digits behind it is a fault, not the end of an integer.
  | none, '.' :: _ => none
  | none, _ =>
    match exponent? rest with
    | some (e, rest) =>
      let x ← realOf (.ofDecimal negative (Numeral.value whole) e)
      return (x, rest)
    | none =>
      let i ← integerOf (Numeral.signed negative (Numeral.value whole))
      return (i, rest)

/-- A number. -/
def number? : List Char → Option (Toml × List Char)
  | '0' :: 'x' :: s => based? 16 s
  | '0' :: 'o' :: s => based? 8 s
  | '0' :: 'b' :: s => based? 2 s
  | s =>
    let (negative, s) := Numeral.spanSign s
    match s with
    | 'i' :: 'n' :: 'f' :: s => some (.real (.infinity negative), s)
    | 'n' :: 'a' :: 'n' :: s => some (.real .nan, s)
    | s => unsigned? negative s

/-! ### Dates and times -/

/-- A number of so many digits. -/
def fixed? (count : Nat) (s : List Char) : Option (Nat × List Char) :=
  let ds := (s.take count).takeWhile Char.isDigit
  if ds.length = count then some (Numeral.value ds, s.drop count) else none

/-- One fixed character. -/
def char? (c : Char) : List Char → Option (List Char)
  | d :: s => if d = c then some s else none
  | [] => none

/-- What follows a date. -/
def afterDate? (s : List Char) : Option (List Char) := do
  let (year, s) ← fixed? 4 s
  let s ← char? '-' s
  let (month, s) ← fixed? 2 s
  let s ← char? '-' s
  let (day, s) ← fixed? 2 s
  let date : Calendar.Date := ⟨year, month, day⟩
  if date.isValid then some s else none

/-- What follows a time of day. -/
def afterTime? (s : List Char) : Option (List Char) := do
  let (hour, s) ← fixed? 2 s
  let s ← char? ':' s
  let (minute, s) ← fixed? 2 s
  let s ← char? ':' s
  let (second, s) ← fixed? 2 s
  if 23 < hour ∨ 59 < minute ∨ 60 < second then none
  else
    match s with
    | '.' :: c :: rest => if c.isDigit then some (rest.dropWhile Char.isDigit) else some s
    | s => some s

/-- What follows an offset from universal time. -/
def afterOffset? : List Char → Option (List Char)
  | c :: s =>
    if c = 'Z' ∨ c = 'z' then some s
    else if c = '+' ∨ c = '-' then do
      let (hour, s) ← fixed? 2 s
      let s ← char? ':' s
      let (minute, s) ← fixed? 2 s
      if hour ≤ 23 ∧ minute ≤ 59 then some s else none
    else none
  | [] => none

/-- What follows a time of day behind a date, with an offset if there is one. -/
def afterDateTime? : List Char → Option (List Char)
  | c :: s =>
    if c = 'T' ∨ c = 't' ∨ c = ' ' then do
      let s ← afterTime? s
      return (afterOffset? s).getD s
    else none
  | [] => none

/-- A date, a time of day, or both. -/
def moment? (s : List Char) : Option (Toml × List Char) := do
  let rest ←
    match afterDate? s with
    | some rest => some ((afterDateTime? rest).getD rest)
    | none => afterTime? s
  return (.moment (.ofList (s.take (s.length - rest.length))), rest)

/-! ### Keys -/

/-- A character of a key without quotes. -/
def isKeyChar (c : Char) : Bool := c.isAlphanum || c = '_' || c = '-'

/-- A plain or quoted part of a key. -/
def keyPart? (s : List Char) : Option (String × List Char) :=
  match string? s with
  | some (cs, s) => some (.ofList cs, s)
  | none =>
    match s.takeWhile isKeyChar with
    | [] => none
    | cs => some (.ofList cs, s.dropWhile isKeyChar)

/-- The parts of a key with points between them; blanks may stand around each. -/
def key? : Nat → List Char → Option (List String × List Char)
  | 0, _ => none
  | fuel + 1, s => do
    let (part, s) ← keyPart? (s.dropWhile isBlank)
    match s.dropWhile isBlank with
    | '.' :: s => do
      let (parts, s) ← key? fuel s
      return (part :: parts, s)
    | s => return ([part], s)

/-! ### Values -/

/-- Passes over a comment, if one stands here. -/
def skipComment : List Char → List Char
  | '#' :: s => s.dropWhile isPlain
  | s => s

/-- Passes over blanks, comments and ends of lines. -/
def skipSpace : Nat → List Char → List Char
  | 0, s => s
  | fuel + 1, s =>
    let s := skipComment (s.dropWhile isBlank)
    match newline? s with
    | some s => skipSpace fuel s
    | none => s

/-- Passes over all space in front. -/
def dropSpace (s : List Char) : List Char := skipSpace (s.length + 1) s

/-- Adds a pair under its key to a table. -/
def enterPair (origin : TableOrigin) (key : List String) (value : Toml) (members : TomlMembers) :
    Option TomlMembers :=
  match key.getLast? with
  | some last =>
    updateAt .dotted (addPair (decide (1 < key.length)) last value) origin key.dropLast members
  | none => none

mutual

/-- A value. `fuel` bounds the steps by the length of the text, `depth` the nesting. -/
def value? : Nat → Nat → List Char → Option (Toml × List Char)
  | 0, _, _ => none
  | fuel + 1, depth, s =>
    match s with
    | '[' :: s =>
      match depth with
      | 0 => none
      | depth + 1 => do
        let (items, s) ← items? fuel depth s
        return (.array items, s)
    | '\x7b' :: s =>
      match depth with
      | 0 => none
      | depth + 1 => do
        match s.dropWhile isBlank with
        | '\x7d' :: s => return (.table .braces [], s)
        | s => do
          let (members, s) ← pairs? fuel depth [] s
          return (.table .braces members, s)
    | 't' :: 'r' :: 'u' :: 'e' :: s => some (.bool true, s)
    | 'f' :: 'a' :: 'l' :: 's' :: 'e' :: s => some (.bool false, s)
    | s =>
      match TomlText.value? s with
      | some (cs, s) => some (.text (.ofList cs), s)
      | none => moment? s <|> number? s

/-- The items of an array up to its end; a comma may stand behind the last one. -/
def items? : Nat → Nat → List Char → Option (List Toml × List Char)
  | 0, _, _ => none
  | fuel + 1, depth, s =>
    match dropSpace s with
    | ']' :: s => some ([], s)
    | s => do
      let (item, s) ← value? fuel depth s
      match dropSpace s with
      | ']' :: s => return ([item], s)
      | ',' :: s => do
        let (items, s) ← items? fuel depth s
        return (item :: items, s)
      | _ => none

/-- The pairs of a table in braces up to its end. -/
def pairs? : Nat → Nat → TomlMembers → List Char → Option (TomlMembers × List Char)
  | 0, _, _, _ => none
  | fuel + 1, depth, members, s => do
    let (key, s) ← key? (s.length + 1) s
    let s ← char? '=' s
    let (value, s) ← value? fuel depth (s.dropWhile isBlank)
    let members ← enterPair .header key value members
    match s.dropWhile isBlank with
    | '\x7d' :: s => return (members, s)
    | ',' :: s => pairs? fuel depth members s
    | _ => none

end

/-! ### Documents -/

/-- What follows the end of a line, a comment in front of it. -/
def endOfLine? (s : List Char) : Option (List Char) :=
  match skipComment (s.dropWhile isBlank) with
  | [] => some []
  | s => newline? s

/-- The key of a header up to its closing brackets. -/
def header? (brackets : List Char) (s : List Char) : Option (List String × List Char) := do
  let (key, s) ← key? (s.length + 1) s
  if brackets.isPrefixOf s then return (key, s.drop brackets.length) else none

/-- Opens the table of a header. -/
def openHeader (change : String → TableOrigin → TomlMembers → Option TomlMembers)
    (key : List String) (document : TomlMembers) : Option TomlMembers :=
  match key.getLast? with
  | some last => updateAt .passed (change last) .header key.dropLast document
  | none => none

/-- Reads lines into a document; `current` is the path of the table that the pairs go to. -/
def lines? : Nat → List String → TomlMembers → List Char → Option TomlMembers
  | 0, _, _, _ => none
  | fuel + 1, current, document, s =>
    match s.dropWhile isBlank with
    | [] => some document
    | '[' :: '[' :: s => do
      let (key, s) ← header? [']', ']'] s
      let document ← openHeader openTables key document
      let s ← endOfLine? s
      lines? fuel key document s
    | '[' :: s => do
      let (key, s) ← header? [']'] s
      let document ← openHeader openTable key document
      let s ← endOfLine? s
      lines? fuel key document s
    | s =>
      -- An empty line or a comment, or else a pair.
      match endOfLine? s with
      | some s => lines? fuel current document s
      | none => do
        let (key, s) ← key? (s.length + 1) s
        let s ← char? '=' s
        let (value, s) ← value? (2 * s.length + 2) nestingLimit (s.dropWhile isBlank)
        let document ← updateAt .passed (fun origin => enterPair origin key value) .header current
          document
        let s ← endOfLine? s
        lines? fuel current document s

/-- The mark that may stand before a text. -/
def byteOrderMark : Char := '\ufeff'

/-- The members of a document. -/
def read? (text : String) : Option TomlMembers :=
  let s := text.toList
  let s := if s.head? = some byteOrderMark then s.drop 1 else s
  lines? (s.length + 2) [] [] s

end GraphIndex.Toml
