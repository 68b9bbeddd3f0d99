import GraphIndex.Json.Basic
import GraphIndex.Number.Layout

/-!
# Writing JSON

`Json.write` is the text without blanks, `Json.writeIndented` the text with one item a line and two
blanks of indentation a level. A double is written with the fewest digits that read back; one that
is not finite is written as null.
-/

namespace GraphIndex.Json

/-- A hexadecimal digit. -/
def hexDigit (n : Nat) : Char := Nat.digitChar n

/-- How one character stands inside a string. -/
def escapeChar (c : Char) : List Char :=
  if c = '"' then ['\\', '"']
  else if c = '\\' then ['\\', '\\']
  else if c.toNat < 0x20 then
    if c.toNat = 8 then ['\\', 'b']
    else if c.toNat = 9 then ['\\', 't']
    else if c.toNat = 10 then ['\\', 'n']
    else if c.toNat = 12 then ['\\', 'f']
    else if c.toNat = 13 then ['\\', 'r']
    else ['\\', 'u', '0', '0', hexDigit (c.toNat / 16), hexDigit (c.toNat % 16)]
  else [c]

/-- A string with its quotes. -/
def quote (s : String) : List Char := '"' :: (s.toList.flatMap escapeChar ++ ['"'])

def nullChars : List Char := ['n', 'u', 'l', 'l']

def boolChars : Bool → List Char
  | true => ['t', 'r', 'u', 'e']
  | false => ['f', 'a', 'l', 's', 'e']

/-- The decimal text of an integer. -/
def intChars (i : Int) : List Char :=
  if i < 0 then '-' :: Nat.toDigits 10 i.natAbs else Nat.toDigits 10 i.natAbs

def numberChars : JsonNumber → List Char
  | .integer i => intChars i
  | .real x => if x.isFinite then x.scientific.toList else nullChars

mutual

/-- The text of a value without blanks. -/
def chars : Json → List Char
  | .null => nullChars
  | .bool b => boolChars b
  | .number n => numberChars n
  | .text s => quote s
  | .array items => '[' :: (itemChars items ++ [']'])
  | .object members => '\x7b' :: (memberChars members ++ ['\x7d'])
  | .unreadable => []

def itemChars : List Json → List Char
  | [] => []
  | [j] => j.chars
  | j :: rest => j.chars ++ ',' :: itemChars rest

def memberChars : List (String × Json) → List Char
  | [] => []
  | [(k, j)] => quote k ++ ':' :: j.chars
  | (k, j) :: rest => quote k ++ ':' :: (j.chars ++ ',' :: memberChars rest)

end

/-- The text of a value without blanks. -/
def write (j : Json) : String := .ofList j.chars

/-- A new line with the indentation of a level. -/
def newLine (level : Nat) : List Char := '\n' :: List.replicate (2 * level) ' '

mutual

/-- The text of a value with one item a line. -/
def indentedChars (level : Nat) : Json → List Char
  | .array [] => ['[', ']']
  | .array items => '[' :: (indentedItems (level + 1) items ++ newLine level ++ [']'])
  | .object [] => ['\x7b', '\x7d']
  | .object members => '\x7b' :: (indentedMembers (level + 1) members ++ newLine level ++ ['\x7d'])
  | .null => nullChars
  | .bool b => boolChars b
  | .number n => numberChars n
  | .text s => quote s
  | .unreadable => []

def indentedItems (level : Nat) : List Json → List Char
  | [] => []
  | [j] => newLine level ++ indentedChars level j
  | j :: rest => newLine level ++ indentedChars level j ++ ',' :: indentedItems level rest

def indentedMembers (level : Nat) : List (String × Json) → List Char
  | [] => []
  | [(k, j)] => newLine level ++ quote k ++ ':' :: ' ' :: indentedChars level j
  | (k, j) :: rest =>
    newLine level ++ quote k ++ ':' :: ' ' :: indentedChars level j
      ++ ',' :: indentedMembers level rest

end

/-- The text of a value with one item a line. -/
def writeIndented (j : Json) : String := .ofList (indentedChars 0 j)

end GraphIndex.Json
