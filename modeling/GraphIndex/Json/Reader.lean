import GraphIndex.Json.Basic
import GraphIndex.Number.Numeral

/-!
# Reading JSON

`Json.scan` reads one value from the front of a text. It never fails: where the text stops being
JSON the value holds `unreadable` and nothing follows. `Json.read?` wants a whole text of JSON.

An integer that fits sixty-four bits is read as it is. Any other number is read as a double from
its leading digits, as many as fit sixty-four bits, times or over a power of ten; this is two
roundings, not one.
-/

namespace GraphIndex.Json

/-- The blanks between the tokens of a JSON text. -/
def isSpace (c : Char) : Bool := c == ' ' || c == '\t' || c == '\n' || c == '\r'

def skipSpace (s : List Char) : List Char := s.dropWhile isSpace

/-! ### Numbers -/

/-- Appends digits to a number as long as it fits sixty-four bits; also how many were used. -/
def extend (significand : Nat) : List Char → Nat × Nat
  | [] => (significand, 0)
  | c :: rest =>
    let next := 10 * significand + Numeral.digitValue c
    if next < UInt64.size then
      let (n, used) := extend next rest
      (n, used + 1)
    else (significand, 0)

/-- The largest power of ten by which a double is multiplied or divided in one step. -/
def largestPower : Nat := 308

/-- The double `x · 10 ^ exponent`, rounded at every step; `none` if it is too large. -/
def scaleByPower : Nat → Binary64 → Int → Option Binary64
  | 0, x, _ => some x
  | fuel + 1, x, exponent =>
    if exponent.natAbs ≤ largestPower then
      let power := Binary64.ofDecimal false 1 exponent.natAbs
      if 0 ≤ exponent then
        let y := x * power
        if y.isInfinite then none else some y
      else some (x / power)
    -- Beyond one step: zero stays zero, what is large overflows, and what is small goes on.
    else if x.significand = 0 then some x
    else if 0 ≤ exponent then none
    else scaleByPower fuel (x / Binary64.ofDecimal false 1 largestPower) (exponent + largestPower)

/-- The double with a significand of sixty-four bits and a decimal exponent. -/
def realNumber? (negative : Bool) (significand : Nat) (exponent : Int) : Option JsonNumber :=
  (scaleByPower 4 (Binary64.ofInt significand) exponent).map fun x =>
    .real (if negative then -x else x)

/-- An exponent is read up to this size. -/
def exponentLimit : Nat := Nat.pow 2 31 - 1

/-- Reads the exponent after its letter and finishes the number. -/
def scanExponent (negative : Bool) (significand : Nat) (exponent : Int) (s : List Char) :
    Option (JsonNumber × List Char) := do
  let (down, s) := Numeral.spanSign s
  let (ds, rest) := Numeral.spanDigits s
  if ds.isEmpty then none
  let e := Numeral.value ds
  -- So large an exponent decides alone: the number is too large, or it is zero.
  if exponentLimit < e then
    if significand ≠ 0 ∧ !down then none
    else some (.real (.zero negative), rest)
  else
    let n ← realNumber? negative significand (exponent + Numeral.signed down e)
    some (n, rest)

/-- Reads what may follow the digits before the point: a fraction, an exponent, or nothing. -/
def scanFraction (negative : Bool) (significand dropped : Nat) (s : List Char) :
    Option (JsonNumber × List Char) := do
  match s with
  | '.' :: s =>
    let (ds, rest) := Numeral.spanDigits s
    if ds.isEmpty then none
    let (m, used) := extend significand ds
    -- A digit dropped before the point counts up, one used behind it counts down.
    let exponent : Int := dropped - used
    match rest with
    | 'e' :: rest | 'E' :: rest => scanExponent negative m exponent rest
    | _ =>
      let n ← realNumber? negative m exponent
      some (n, rest)
  | 'e' :: rest | 'E' :: rest => scanExponent negative significand dropped rest
  | rest =>
    -- An integer has all its digits; minus zero is a double.
    if dropped = 0 ∧ !negative then some (.integer significand, rest)
    else if dropped = 0 ∧ 0 < significand ∧ significand ≤ Nat.pow 2 63 then
      some (.integer (-significand), rest)
    else
      let n ← realNumber? negative significand dropped
      some (n, rest)

/-- Reads a number without its sign. -/
def scanUnsigned (negative : Bool) (s : List Char) : Option (JsonNumber × List Char) :=
  let (ds, rest) := Numeral.spanDigits s
  match ds with
  | [] => none
  | ['0'] => scanFraction negative 0 0 rest
  | '0' :: _ => none
  | _ =>
    let (m, used) := extend 0 ds
    scanFraction negative m (ds.length - used) rest

/-- Reads a number. -/
def scanNumber : List Char → Option (JsonNumber × List Char)
  | '-' :: s => scanUnsigned true s
  | s => scanUnsigned false s

/-! ### Strings -/

def hexValue? (c : Char) : Option Nat :=
  if c.isDigit then some (c.toNat - '0'.toNat)
  else if 'a' ≤ c ∧ c ≤ 'f' then some (c.toNat - 'a'.toNat + 10)
  else if 'A' ≤ c ∧ c ≤ 'F' then some (c.toNat - 'A'.toNat + 10)
  else none

/-- The number that four hexadecimal digits denote. -/
def hex4? (a b c d : Char) : Option Nat := do
  let a ← hexValue? a
  let b ← hexValue? b
  let c ← hexValue? c
  let d ← hexValue? d
  some (((a * 16 + b) * 16 + c) * 16 + d)

/-- The character of a one-letter escape. -/
def shortEscape? : Char → Option Char
  | '"' => some '"'
  | '\\' => some '\\'
  | '/' => some '/'
  | 'b' => some (Char.ofNat 8)
  | 'f' => some (Char.ofNat 12)
  | 'n' => some '\n'
  | 'r' => some '\r'
  | 't' => some '\t'
  | _ => none

def isHighSurrogate (n : Nat) : Bool := 0xd800 ≤ n && n < 0xdc00

def isLowSurrogate (n : Nat) : Bool := 0xdc00 ≤ n && n < 0xe000

/-- Reads the rest of a string up to its closing quote. A character outside the first plane may be
escaped as a pair of surrogates; a lone one is refused, as is a control character. -/
def scanString : List Char → Option (List Char × List Char)
  | [] => none
  | '"' :: rest => some ([], rest)
  | '\\' :: 'u' :: a :: b :: c :: d :: '\\' :: 'u' :: a' :: b' :: c' :: d' :: rest => do
    let n ← hex4? a b c d
    if isHighSurrogate n then
      let m ← hex4? a' b' c' d'
      if !isLowSurrogate m then none
      let (cs, rest) ← scanString rest
      some (Char.ofNat (0x10000 + (n - 0xd800) * 0x400 + (m - 0xdc00)) :: cs, rest)
    else if isLowSurrogate n then none
    else
      -- The second escape stands for itself and is read again.
      let (cs, rest) ← scanString ('\\' :: 'u' :: a' :: b' :: c' :: d' :: rest)
      some (Char.ofNat n :: cs, rest)
  | '\\' :: 'u' :: a :: b :: c :: d :: rest => do
    let n ← hex4? a b c d
    if isHighSurrogate n || isLowSurrogate n then none
    let (cs, rest) ← scanString rest
    some (Char.ofNat n :: cs, rest)
  | '\\' :: e :: rest => do
    let c ← shortEscape? e
    let (cs, rest) ← scanString rest
    some (c :: cs, rest)
  | c :: rest =>
    if c.toNat < 0x20 ∨ c = '\\' then none
    else (scanString rest).map fun (cs, rest) => (c :: cs, rest)

/-! ### Values -/

/-- How deep values may be nested in the texts of a request. -/
def depthLimit : Nat := 127

mutual

/-- Reads one value; no rest means that the text stopped being JSON. `fuel` bounds the steps by
the length of the text, `depth` the nesting. -/
def scanValue : Nat → Nat → List Char → Json × Option (List Char)
  | 0, _, _ => (.unreadable, none)
  | fuel + 1, depth, s =>
    match skipSpace s with
    | 'n' :: 'u' :: 'l' :: 'l' :: rest => (.null, some rest)
    | 't' :: 'r' :: 'u' :: 'e' :: rest => (.bool true, some rest)
    | 'f' :: 'a' :: 'l' :: 's' :: 'e' :: rest => (.bool false, some rest)
    | '"' :: rest =>
      match scanString rest with
      | some (cs, rest) => (.text (.ofList cs), some rest)
      | none => (.unreadable, none)
    | '[' :: rest =>
      match depth with
      | 0 => (.unreadable, none)
      | depth + 1 =>
        let (items, rest) :=
          match skipSpace rest with
          | ']' :: rest => ([], some rest)
          | rest => scanItems fuel depth rest
        (.array items, rest)
    | '\x7b' :: rest =>
      match depth with
      | 0 => (.unreadable, none)
      | depth + 1 =>
        let (members, rest) :=
          match skipSpace rest with
          | '\x7d' :: rest => ([], some rest)
          | rest => scanMembers fuel depth rest
        (.object members, rest)
    | s =>
      match scanNumber s with
      | some (n, rest) => (.number n, some rest)
      | none => (.unreadable, none)

/-- Reads the items of an array from the first one on. -/
def scanItems : Nat → Nat → List Char → List Json × Option (List Char)
  | 0, _, _ => ([.unreadable], none)
  | fuel + 1, depth, s =>
    match scanValue fuel depth s with
    | (item, none) => ([item], none)
    | (item, some rest) =>
      match skipSpace rest with
      | ']' :: rest => ([item], some rest)
      | ',' :: rest =>
        let (items, rest) := scanItems fuel depth rest
        (item :: items, rest)
      | _ => ([item, .unreadable], none)

/-- Reads the members of an object from the first one on. -/
def scanMembers : Nat → Nat → List Char → List (String × Json) × Option (List Char)
  | 0, _, _ => ([("", .unreadable)], none)
  | fuel + 1, depth, s =>
    match skipSpace s with
    | '"' :: rest =>
      match scanString rest with
      | none => ([("", .unreadable)], none)
      | some (key, rest) =>
        match skipSpace rest with
        | ':' :: rest =>
          match scanValue fuel depth rest with
          | (value, none) => ([(.ofList key, value)], none)
          | (value, some rest) =>
            match skipSpace rest with
            | '\x7d' :: rest => ([(.ofList key, value)], some rest)
            | ',' :: rest =>
              let (members, rest) := scanMembers fuel depth rest
              ((.ofList key, value) :: members, rest)
            | _ => ([(.ofList key, value), ("", .unreadable)], none)
        | _ => ([(.ofList key, .unreadable)], none)
    | _ => ([("", .unreadable)], none)

end

/-- Reads one value from the front of a text, with what follows it. -/
def scanWithin (depth : Nat) (s : List Char) : Json × Option (List Char) :=
  scanValue (2 * s.length + 2) depth s

/-- Reads one value from the front of a text, nested no deeper than texts of a request may be. -/
def scan (s : List Char) : Json × Option (List Char) := scanWithin depthLimit s

/-- Whether nothing but blanks follows a value. -/
def endsText : Option (List Char) → Bool
  | none => false
  | some rest => rest.all isSpace

/-- The value of a text that is JSON from end to end, nested no deeper than `depth`. -/
def readWithin? (depth : Nat) (s : String) : Option Json :=
  let (j, rest) := scanWithin depth s.toList
  if endsText rest then some j else none

/-- The value of a text that is JSON from end to end. -/
def read? (s : String) : Option Json := readWithin? depthLimit s

end GraphIndex.Json
