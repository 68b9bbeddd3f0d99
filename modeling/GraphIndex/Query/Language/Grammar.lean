import GraphIndex.Query.Basic
import GraphIndex.Query.Error
import GraphIndex.Query.Language.Lexis

/-!
# The query language

A query text reads

    find <tag or *>
    [where <condition>] [order by [-]field [asc or desc]]
    [limit n] [offset n] [select * or field, ...]

A condition is `field op value`, `field exists`, `field is empty` or `field is not empty`, possibly
after `not`, in parentheses, or joined by `and` and `or`, of which `and` binds tighter. Every part
after the target may be missing; a part that cannot be read as a whole counts as missing, and what
remains of the text is then refused.
-/

namespace GraphIndex.Language

/-! ### Conditions -/

/-- Several conditions become a group, a single one stays itself. -/
def chain (kind : Connective) (first : Entry) : List Entry → Entry
  | [] => first
  | rest => .group kind (first :: rest) false

/-- Passes over a keyword that joins two conditions. -/
def joint (word : String) (s : List Char) : Option (List Char) := do
  let s ← someSpaces s
  let s ← keyword word s
  some (spaces s)

/-- Reads `is not empty` or `is empty`. -/
def emptiness (s : List Char) : Option (Operator × List Char) := do
  let s ← keyword "is" s
  let s ← someSpaces s
  (do
    let s ← keyword "not" s
    let s ← someSpaces s
    let s ← keyword "empty" s
    some (.present, s))
  <|> (do
    let s ← keyword "empty" s
    some (.missing, s))

/-- Reads a test of existence after a field. -/
def existenceTest (s : List Char) : Option (Operator × List Char) := do
  let s ← someSpaces s
  ((keyword "exists" s).map fun s => (.present, s)) <|> emptiness s

/-- Reads an operator and a value after a field. -/
def comparison (s : List Char) : Option ((Operator × Operand) × List Char) := do
  let (op, s) ← operator (spaces s)
  let (v, s) ← value (spaces s)
  some ((op, v), s)

/-- Reads a single condition. -/
def condition (s : List Char) : Option (Entry × List Char) := do
  let (f, s) ← field s
  let ((op, v), s) ←
    (existenceTest s).map (fun (op, s) => ((op, .bool true), s)) <|> comparison s
  some (.clause (.plain f op v), s)

mutual

/-- Reads conditions joined by `or`. -/
def orChain : Nat → List Char → Option (Entry × List Char)
  | 0, _ => none
  | fuel + 1, s => do
    let (first, s) ← andChain fuel s
    let (rest, s) := orRest fuel s
    some (chain .any first rest, s)

/-- Reads further conditions, each after an `or`. -/
def orRest : Nat → List Char → List Entry × List Char
  | 0, s => ([], s)
  | fuel + 1, s =>
    match (joint "or" s).bind (andChain fuel) with
    | none => ([], s)
    | some (e, s) =>
      let (rest, s) := orRest fuel s
      (e :: rest, s)

/-- Reads conditions joined by `and`. -/
def andChain : Nat → List Char → Option (Entry × List Char)
  | 0, _ => none
  | fuel + 1, s => do
    let (first, s) ← unary fuel s
    let (rest, s) := andRest fuel s
    some (chain .all first rest, s)

/-- Reads further conditions, each after an `and`. -/
def andRest : Nat → List Char → List Entry × List Char
  | 0, s => ([], s)
  | fuel + 1, s =>
    match (joint "and" s).bind (unary fuel) with
    | none => ([], s)
    | some (e, s) =>
      let (rest, s) := andRest fuel s
      (e :: rest, s)

/-- Reads a negated condition, conditions in parentheses, or a single condition. -/
def unary : Nat → List Char → Option (Entry × List Char)
  | 0, _ => none
  | fuel + 1, s =>
    (do
      let s ← keyword "not" s
      let (e, s) ← unary fuel (spaces s)
      some (e.negate, s))
    <|> (do
      let s ← symbol '(' s
      let (e, s) ← orChain fuel (spaces s)
      let s ← symbol ')' (spaces s)
      some (e, s))
    <|> condition s

end

/-- Steps enough for a text: three levels of conditions for every character. -/
def stepsFor (s : List Char) : Nat := 4 * s.length + 8

/-- Conditions joined by `and` at the top become separate conditions of the query. -/
def topLevel : Entry → List Entry
  | .group .all members false => members
  | e => [e]

/-! ### The parts of a query -/

/-- Reads a part that may be missing. -/
def optional {α : Type} (part : List Char → Option (α × List Char)) (s : List Char) :
    Option α × List Char :=
  match part s with
  | some (a, s) => (some a, s)
  | none => (none, s)

/-- Reads the target. -/
def target (s : List Char) : Option (String × List Char) :=
  (symbol '*' s).map (fun s => (anyNode, s)) <|> quoted s <|> name s

/-- Reads the conditions. -/
def wherePart (s : List Char) : Option (Entry × List Char) := do
  let s ← joint "where" s
  orChain (stepsFor s) s

/-- Reads a direction after a field; `true` stands for descending. -/
def direction (s : List Char) : Option (Bool × List Char) := do
  let s ← someSpaces s
  ((keyword "desc" s).map fun s => (true, s)) <|> ((keyword "asc" s).map fun s => (false, s))

/-- Reads the sort order. A direction outweighs a minus sign. -/
def orderPart (s : List Char) : Option (SortKey × List Char) := do
  let s ← someSpaces s
  let s ← keyword "order" s
  let s ← someSpaces s
  let s ← keyword "by" s
  let s ← someSpaces s
  let (dash, s) := optional (fun s => (symbol '-' s).map fun s => ((), s)) s
  let (f, s) ← field s
  let (descending, s) := optional direction s
  some (⟨f, descending.getD dash.isSome⟩, s)

/-- Reads a keyword and a count. -/
def countPart (word : String) (s : List Char) : Option (Int64 × List Char) := do
  let s ← someSpaces s
  let s ← keyword word s
  let s ← someSpaces s
  count s

/-- Reads further fields, each after a comma. -/
def moreFields : Nat → List Char → List String × List Char
  | 0, s => ([], s)
  | fuel + 1, s =>
    match (symbol ',' (spaces s)).bind (fun s => field (spaces s)) with
    | none => ([], s)
    | some (f, s) =>
      let (rest, s) := moreFields fuel s
      (f :: rest, s)

/-- Reads the fields to show. -/
def selectPart (s : List Char) : Option (List String × List Char) := do
  let s ← someSpaces s
  let s ← keyword "select" s
  let s ← someSpaces s
  (symbol '*' s).map (fun s => ([anyNode], s))
  <|> (do
    let (first, s) ← field s
    let (rest, s) := moreFields s.length s
    some (first :: rest, s))

/-- Reads the beginning of a query up to its target; a refusal tells where. -/
def header (s : List Char) : Except (List Char) (String × List Char) :=
  let s := spaces s
  match wordPart "find".toList s with
  | none => .error s
  | some s =>
    if continuesWord s then .error s
    else
      match someSpaces s with
      | none => .error s
      | some s =>
        match target s with
        | none => .error s
        | some r => .ok r

/-- Reads a query from the front of a text. -/
def query (s : List Char) : Except (List Char) (Query × List Char) := do
  let (find, s) ← header s
  let (conditions, s) := optional wherePart s
  let (orderBy, s) := optional orderPart s
  let (limit, s) := optional (countPart "limit") s
  let (offset, s) := optional (countPart "offset") s
  let (select, s) := optional selectPart s
  return ({
    find
    conditions := (conditions.map topLevel).getD []
    orderBy
    select
    limit := limit.getD defaultLimit
    offset := offset.getD 0 }, spaces s)

/-- How much of the text is shown where it stops being a query. -/
def shownLength : Nat := 40

end GraphIndex.Language

namespace GraphIndex.Query

open GraphIndex.Language

/-- The query that a text denotes. -/
def ofText (text : String) : Except QueryError Query :=
  match query (Text.trimList text.toList) with
  | .error rest => .error (.language (.unexpected (.ofList (rest.take shownLength))))
  | .ok (q, rest) =>
    if rest.all Text.isBlank then .ok q
    else .error (.language (.trailing (.ofList (Text.trimList rest))))

end GraphIndex.Query
