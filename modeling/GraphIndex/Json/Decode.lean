import GraphIndex.Json.Writer
import GraphIndex.Number.Numeral
import GraphIndex.Text.Quoted

/-!
# Reading values of a given shape from JSON

A value may lack a field, give one twice, have another type than the one wanted, or fit none of
several shapes. `DecodeError` names these causes and `DecodeError.message` words them. The fields of
an object are checked in the order of its members, missing ones last.
-/

namespace GraphIndex

/-- Why a JSON value does not have the wanted shape. -/
inductive DecodeError where
  /-- The text is not JSON. -/
  | notJson
  | missingField (name : String)
  | duplicateField (name : String)
  | wrongType (found : Json) (expected : String)
  /-- An integer that does not fit sixty-four bits with sign. -/
  | outOfRange (found : Int)
  | unknownVariant (name : String) (known : String)
  /-- An array has fewer items than the fields that must be given. -/
  | tooFewItems (length : Nat) (expected : String)
  /-- An array has more items than there are fields. -/
  | tooManyItems (length : Nat)
  /-- A variant is given as an object that has not exactly one key. -/
  | notOneKey
  | noVariant (type : String)
  deriving Repr

namespace DecodeError

/-- What a value is called when another type was expected. -/
def describe : Json → String
  | .null => "null"
  | .bool b => "boolean `" ++ String.ofList (Json.boolChars b) ++ "`"
  | .number (.integer i) => "integer `" ++ toString i ++ "`"
  | .number (.real x) => "floating point `" ++ x.plainWithFraction ++ "`"
  | .text s => "string " ++ Text.quoted s
  | .array _ => "sequence"
  | .object _ => "map"
  | .unreadable => ""

/-- The text of a cause; a text that is not JSON has none here. -/
def message : DecodeError → String
  | notJson => ""
  | missingField name => "missing field `" ++ name ++ "`"
  | duplicateField name => "duplicate field `" ++ name ++ "`"
  | wrongType found expected => "invalid type: " ++ describe found ++ ", expected " ++ expected
  | outOfRange found => "invalid value: integer `" ++ toString found ++ "`, expected i64"
  | unknownVariant name known => "unknown variant `" ++ name ++ "`, expected `" ++ known ++ "`"
  | tooFewItems length expected =>
    "invalid length " ++ toString length ++ ", expected " ++ expected
  | tooManyItems length =>
    "invalid length " ++ toString length ++ ", expected fewer elements in array"
  | notOneKey => "invalid value: map, expected map with a single key"
  | noVariant type => "data did not match any variant of untagged enum " ++ type

end DecodeError

namespace Json

/-- Refuses a value of another type than the one expected. -/
def refuse {α : Type} (j : Json) (expected : String) : Except DecodeError α :=
  match j with
  | .unreadable => .error .notJson
  | j => .error (.wrongType j expected)

def decodeText : Json → Except DecodeError String
  | .text s => .ok s
  | j => refuse j "a string"

def decodeBool : Json → Except DecodeError Bool
  | .bool b => .ok b
  | j => refuse j "a boolean"

def decodeInt64 : Json → Except DecodeError Int64
  | .number (.integer i) =>
    if fitsInt64 i then .ok (Int64.ofInt i) else .error (.outOfRange i)
  | j => refuse j "i64"

/-- Reads every item of a list. -/
def decodeItems {α : Type} (item : Json → Except DecodeError α) :
    List Json → Except DecodeError (List α)
  | [] => .ok []
  | j :: rest => do
    let a ← item j
    let rest ← decodeItems item rest
    return a :: rest

def decodeList {α : Type} (item : Json → Except DecodeError α) :
    Json → Except DecodeError (List α)
  | .array items => decodeItems item items
  | j => refuse j "a sequence"

/-- Reads a value or null. -/
def decodeOption {α : Type} (value : Json → Except DecodeError α) :
    Json → Except DecodeError (Option α)
  | .null => .ok none
  | j => (value j).map some

/-- Passes over a value that is not looked at, as long as it is JSON. -/
def ignore (j : Json) : Except DecodeError Unit :=
  if j.isReadable then .ok () else .error .notJson

/-- Reads a field that may be given once only. -/
def decodeOnce {α : Type} (name : String) (value : Json → Except DecodeError α) (j : Json)
    (seen : Option α) : Except DecodeError (Option α) :=
  match seen with
  | some _ => .error (.duplicateField name)
  | none => (value j).map some

/-- The value of a field that must be given. -/
def required {α : Type} (name : String) : Option α → Except DecodeError α
  | some a => .ok a
  | none => .error (.missingField name)

/-! ### Values tried in several shapes

Where a value may have several shapes it is read whole first and then each shape is tried; which of
them failed, and how, is not told. -/

/-- The value of a key that occurs at most once: `none` if it occurs twice, `some none` if it does
not occur. -/
def unique? (key : String) : List (String × Json) → Option (Option Json)
  | [] => some none
  | (k, j) :: rest => do
    let later ← unique? key rest
    if k = key then
      match later with
      | none => some (some j)
      | some _ => none
    else some later

/-- The name of a variant without content: a text, or an object with that one key and null. -/
def variantName? : Json → Option String
  | .text s => some s
  | .object [(s, .null)] => some s
  | _ => none

/-- Reads a flag that may be left out. -/
def flag? : Option Json → Option Bool
  | none => some false
  | some (.bool b) => some b
  | some _ => none

end Json

end GraphIndex
