import GraphIndex.Query.Decode
import GraphIndex.Query.Moment

/-!
# Short forms of conditions

Conditions may be given as an object from field names to compact values:

* a text, a number or a truth value asks for equality, null for absence;
* `~x` asks that the field contains `x`, and `\~x` for the text `~x` itself;
* `>`, `<`, `>=` or `<=` before a date compares with that date;
* a list asks that the field equals one of its items;
* an object gives operators by name, `not` negates the operators inside it;
* the keys `and` and `or` join lists of such objects.

Any other text is compared as it stands. A list in place of the object gives conditions in full.
-/

namespace GraphIndex.Shorthand

/-! ### Texts -/

/-- The comparisons that may stand before a date, longer symbols first. -/
def dateMarks : List (List Char × Comparison) :=
  [(['>', '='], .atLeast), (['<', '='], .atMost), (['>'], .greater), (['<'], .less)]

/-- What follows the beginning of a text. -/
def after? : List Char → List Char → Option (List Char)
  | [], s => some s
  | _ :: _, [] => none
  | c :: mark, d :: s => if c = d then after? mark s else none

/-- The first comparison before a text, with what follows it. -/
def firstMark? (s : List Char) : Option (Comparison × List Char) :=
  dateMarks.findSome? fun (mark, c) => (after? mark s).map fun rest => (c, rest)

/-- A comparison with a date, if the text is one. -/
def dateClause? (field : String) (s : List Char) : Option Clause := do
  let (c, rest) ← firstMark? s
  let token := Text.trim (.ofList rest)
  if Moment.looksLikeDate token then some (.plain field (.compare c) (.text token)) else none

/-- The condition that a text stands for. -/
def textClause (field raw : String) : Clause :=
  match raw.toList with
  -- Behind a backslash the tilde is part of the text.
  | '\\' :: '~' :: rest => .equalTo field (.text (.ofList ('~' :: rest)))
  | '~' :: rest => .contains field (.text (.ofList rest))
  | s => (dateClause? field s).getD (.equalTo field (.text raw))

/-! ### Operators -/

/-- A text, a truth value or a number as the value of a condition. -/
def scalar? : Json → Option Operand
  | .null => none
  | j => Operand.ofJson? j

/-- A test for presence or absence; `false` asks for the opposite. -/
def flagClause (field key : String) (whenTrue whenFalse : Clause) : Json → Except QueryError Entry
  | .bool true => .ok (.clause whenTrue)
  | .bool false => .ok (.clause whenFalse)
  | _ => .error (.invalid (.needsFlag key field))

/-- The operator of a key; two words for dates are read beside the usual spellings. -/
def operatorOfKey (key : String) : Except QueryError Operator :=
  match key with
  | "after" => .ok (.compare .greater)
  | "before" => .ok (.compare .less)
  | word =>
    match Operator.ofText? word with
    | some op => .ok op
    | none => .error (.invalid (.unknownOperator (Operator.keyOf word)))

/-- The condition of an operator and its value. -/
def operatorClause (field key : String) (value : Json) : Except QueryError Entry :=
  match key with
  | "exists" => flagClause field key (.present field) (.missing field) value
  | "is_empty" => flagClause field key (.missing field) (.present field) value
  | _ => do
    let op ← operatorOfKey key
    match scalar? value with
    | some v => .ok (.clause (.plain field op v))
    | none => .error (.invalid (.needsScalar key field))

/-- The negation of conditions that must all hold. -/
def negateAll : List Entry → Entry
  | [e] => e.negate
  | es => .group .all es true

mutual

/-- The conditions of an operator object, one for each of its members. -/
def operatorEntries (field : String) : List (String × Json) → Except QueryError (List Entry)
  | [] => .ok []
  | (key, value) :: rest => do
    let e ← if key = "not" then notEntry field value else operatorClause field key value
    let es ← operatorEntries field rest
    return e :: es

/-- The negated condition of the operators under `not`. -/
def notEntry (field : String) : Json → Except QueryError Entry
  | .object members => do
    let es ← operatorEntries field members
    return negateAll es
  | _ => .error (.invalid (.needsOperatorObject field))

end

/-! ### Fields and groups -/

/-- A condition of equality for every item of a list. -/
def itemEntries (field : String) : List Json → Except QueryError (List Entry)
  | [] => .ok []
  | j :: rest =>
    match scalar? j with
    | none => .error (.invalid (.needsScalarItems field))
    | some v => do
      let es ← itemEntries field rest
      return .clause (.equalTo field v) :: es

/-- The conditions of one field and its compact value. -/
def fieldEntries (field : String) : Json → Except QueryError (List Entry)
  | .array items => do
    let es ← itemEntries field items
    return [.group .any es false]
  | .object members => operatorEntries field members
  | .text s => .ok [.clause (textClause field s)]
  | .bool b => .ok [.clause (.equalTo field (.bool b))]
  -- Every number is an operand, so that the default is never taken.
  | .number n => .ok [.clause (.equalTo field ((Operand.ofJson? (.number n)).getD (.bool true)))]
  | .null | .unreadable => .ok [.clause (.missing field)]

/-- The conditions of one item of a group: none is dropped, several are joined. -/
def joinNested : List Entry → List Entry
  | [] => []
  | [e] => [e]
  | es => [.group .all es false]

/-- Conditions given in full. -/
def explicitEntries (items : List Json) : Except QueryError (List Entry) :=
  match Json.decodeItems Entry.decode items with
  | .ok es => .ok es
  | .error e => .error (.invalid (.conditionList e))

/-- The connective of the keys that join lists of conditions. -/
def connectiveOf? : String → Option Connective
  | "and" => some .all
  | "or" => some .any
  | _ => none

mutual

/-- The conditions that a JSON value stands for. -/
def entries : Json → Except QueryError (List Entry)
  | .null => .ok []
  | .array items => explicitEntries items
  | .object members => memberEntries members
  | j => .error (.invalid (.conditionsShape j))

/-- The conditions of the members of an object, in their order. -/
def memberEntries : List (String × Json) → Except QueryError (List Entry)
  | [] => .ok []
  | (key, value) :: rest => do
    let es ←
      match connectiveOf? key with
      | some kind => groupEntries key kind value
      | none => fieldEntries key value
    let later ← memberEntries rest
    return es ++ later

/-- The group of a list of conditions. -/
def groupEntries (key : String) (kind : Connective) : Json → Except QueryError (List Entry)
  | .array items => do
    let es ← nestedEntries items
    return [.group kind es false]
  | _ => .error (.invalid (.needsConditionList key))

/-- The members of a group, one at most for each item. -/
def nestedEntries : List Json → Except QueryError (List Entry)
  | [] => .ok []
  | j :: rest => do
    let es ← entries j
    let later ← nestedEntries rest
    return joinNested es ++ later

end

end GraphIndex.Shorthand
