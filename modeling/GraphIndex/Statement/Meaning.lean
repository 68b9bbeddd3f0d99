import GraphIndex.Statement.Dates

/-!
# The meaning of statements

What statements answer. A condition is true, false or unknown: a comparison with null is unknown,
"not" keeps the unknown, "and" and "or" are decided by one false or one true member. A statement
works on the rows whose conditions are true.
-/

namespace GraphIndex

/-! ### Rows at hand -/

/-- A row of some table, or the nulls that take the place of a row that is missing. -/
inductive Row where
  | node (row : NodeRow)
  | tag (row : TagRow)
  | field (row : FieldRow)
  | missing
  deriving DecidableEq, Repr, Inhabited

/-- A column of a row; a row has nulls in the columns of other tables. -/
def Row.cell : Row → Column → Datum
  | node r, .node c => r.cell c
  | tag r, .tagNode => .text r.node
  | tag r, .tagName => .text r.tag
  | field r, .fieldNode => .text r.node
  | field r, .fieldName => .text r.field
  | field r, .fieldValue => .ofText? r.value
  | field r, .fieldOrder => r.order
  | _, _ => .null

/-- The rows of a table in the order in which they were entered. -/
def Store.rows (s : Store) : Table → List Row
  | .nodes => s.nodes.map .node
  | .tags => s.tags.map .tag
  | .fields => s.fields.map .field

/-- Rows under their aliases, the innermost first. -/
abbrev Scope := List (Alias × Row)

/-- The row of an alias. -/
def Scope.row (scope : Scope) (name : Alias) : Row := (scope.lookup name).getD .missing

/-! ### Values of expressions -/

namespace Datum

/-- The number for which a value stands in arithmetic: a text stands for the number that it begins
with. -/
def toNumber : Datum → Datum
  | text s =>
    match NumericText.leading s.toList with
    | some n => ofLeading n
    | none => .integer 0
  | d => d

/-- A value as a double; a text stands for the number that it begins with. -/
def toReal? : Datum → Option Binary64
  | null => none
  | integer i => some (.ofInt i.toInt)
  | real x => some x
  | text s => some ((NumericText.leading s.toList).elim (.zero false) (·.value))

/-- The nearest integer of sixty-four bits. -/
def clamp (i : Int) : Int64 :=
  Int64.ofInt (max Int64.minValue.toInt (min Int64.maxValue.toInt i))

/-- The double as an integer, without its fraction. -/
def integerPart (x : Binary64) : Int64 :=
  if x.isFinite then clamp x.truncate
  else if x.isNegative then Int64.minValue
  else Int64.maxValue

/-- A value made to be of a kind. -/
def cast (d : Datum) (a : Affinity) : Datum :=
  match a, d with
  | _, null => null
  | .text, d => d.preferText
  | .real, d => d.toReal?.elim null ofReal
  | .integer, integer i => integer i
  | .integer, real x => integer (integerPart x)
  | .integer, text s => integer ((NumericText.leading s.toList).elim 0 fun n => clamp n.whole)

/-- The sum of two numbers; one that does not fit sixty-four bits is a double. -/
def plus (d e : Datum) : Datum :=
  match d.toNumber, e.toNumber with
  | integer i, integer j =>
    let sum := i.toInt + j.toInt
    if fitsInt64 sum then integer (Int64.ofInt sum)
    else ofReal (.ofInt i.toInt + .ofInt j.toInt)
  | d, e =>
    match d.toReal?, e.toReal? with
    | some x, some y => ofReal (x + y)
    | _, _ => null

/-- The quotient of two numbers, of integers without its fraction; null if the divisor is zero. -/
def divide (d e : Datum) : Datum :=
  match d.toNumber, e.toNumber with
  | integer i, integer j =>
    if j = 0 then null
    -- Only the least integer over minus one does not fit.
    else if fitsInt64 (i.toInt.tdiv j.toInt) then integer (Int64.ofInt (i.toInt.tdiv j.toInt))
    else ofReal (.ofInt i.toInt / .ofInt j.toInt)
  | d, e =>
    match d.toReal?, e.toReal? with
    | some x, some y => if y.sameValue (.zero false) then null else ofReal (x / y)
    | _, _ => null

/-- Two texts one after the other. -/
def concat (d e : Datum) : Datum :=
  match d.toText?, e.toText? with
  | some s, some t => text (s ++ t)
  | _, _ => null

/-- A value, or a text in place of null. -/
def orText (d : Datum) (s : String) : Datum := if d.isNull then text s else d

/-- The date of a number of seconds. -/
def date (format : List DatePart) (d : Datum) : Datum :=
  match d.toReal?.bind dayOfSeconds? with
  | some day => text (dateText format day)
  | none => null

end Datum

namespace Expr

/-- The value of an expression for the rows at hand. -/
def value (scope : Scope) : Expr → Datum
  | column source c => (scope.row source).cell c
  -- A double that is no number is bound as null.
  | bound (.real x) => .ofReal x
  | bound d => d
  | quoted s => .text s
  | number n => .integer (Int64.ofNat n)
  | cast e a => (e.value scope).cast a
  | orText e s => (e.value scope).orText s
  | date format e => (e.value scope).date format
  | plus e d => (e.value scope).plus (d.value scope)
  | divide e d => (e.value scope).divide (d.value scope)
  | concat e d => (e.value scope).concat (d.value scope)
  | parens e => e.value scope

/-- The kind of value that an expression prefers. -/
def affinity? : Expr → Option Affinity
  | column _ c => some c.affinity
  | cast _ a => some a
  | parens e => e.affinity?
  | _ => none

end Expr

/-! ### Truth of conditions -/

namespace Connective

/-- "And" and "or" of two truth values. -/
def combine : Connective → Option Bool → Option Bool → Option Bool
  | all, some false, _ | all, _, some false => some false
  | all, some true, b | all, b, some true => b
  | any, some true, _ | any, _, some true => some true
  | any, some false, b | any, b, some false => b
  | _, none, none => none

/-- The truth of a group without members. -/
def unit : Connective → Option Bool
  | all => some true
  | any => some false

/-- "And" and "or" of a list of truth values. -/
def fold (kind : Connective) (bs : List (Option Bool)) : Option Bool :=
  bs.foldr kind.combine kind.unit

end Connective

/-- The characters of a value that is looked at as a text, up to its first NUL. -/
def Datum.chars? (d : Datum) : Option (List Char) := d.toText?.map fun s => Datum.untilNul s.toList

/-- Sets a row of a table beside the rows at hand. -/
def Source.bind (s : Source) (scope : Scope) (row : Row) : Scope := (s.name, row) :: scope

namespace Condition

/-- The truth of a comparison. -/
def compareTruth (scope : Scope) (left : Expr) (c : Comparison) (right : Expr) : Option Bool :=
  (Datum.compare left.affinity? right.affinity? (left.value scope) (right.value scope)).map c.holds

mutual

/-- The truth of a condition. -/
def truth (store : Store) (scope : Scope) : Condition → Option Bool
  | compare left c right => compareTruth scope left c right
  | like e pattern =>
    (e.value scope).chars?.map fun s => Pattern.like (Datum.untilNul pattern.toList) s
  | glob fits e pattern => (e.value scope).chars?.map fun s => pattern.glob s == fits
  | isNull e => some (e.value scope).isNull
  | isNotNull e => some !(e.value scope).isNull
  | .exists holds source conditions =>
    let found := (store.rows source.table).any fun row =>
      Connective.all.fold (truths store (source.bind scope row) conditions) == some true
    some (found == holds)
  | group kind members => kind.fold (truths store scope members)
  | not c => (c.truth store scope).map (!·)

/-- The truth of every condition of a list. -/
def truths (store : Store) (scope : Scope) : List Condition → List (Option Bool)
  | [] => []
  | c :: rest => c.truth store scope :: truths store scope rest

end

/-- Whether all conditions are true. -/
def allTrue (store : Store) (scope : Scope) (cs : List Condition) : Bool :=
  Connective.all.fold (truths store scope cs) == some true

end Condition

/-! ### Rows of a selection -/

/-- The rows at hand with every partner of a join. -/
def Join.extend (store : Store) (j : Join) (scope : Scope) : List Scope :=
  let partners := ((store.rows j.source.table).map (j.source.bind scope)).filter fun s =>
    Condition.allTrue store s j.on
  match j.kind with
  | .inner => partners
  | .left => if partners.isEmpty then [j.source.bind scope .missing] else partners

/-- The rows at hand with the partners of every join. -/
def extendAll (store : Store) (js : List Join) (scopes : List Scope) : List Scope :=
  js.foldl (fun scopes j => scopes.flatMap (j.extend store)) scopes

namespace Selection

/-- The rows that a statement works on, each with its node. -/
def rows (store : Store) (s : Selection) : List (NodeRow × Scope) :=
  store.nodes.flatMap fun r =>
    ((extendAll store s.joins.joins [[(.node, .node r)]]).filter fun scope =>
      Condition.allTrue store scope s.conditions).map fun scope => (r, scope)

/-- The nodes of the selected rows, once for each row. -/
def nodes (store : Store) (s : Selection) : List NodeRow := (s.rows store).map (·.1)

end Selection

/-! ### Answers -/

/-- The members of a list that do not occur earlier. -/
def distinct {α : Type} [DecidableEq α] : List α → List α
  | [] => []
  | a :: rest => a :: (distinct rest).filter (· ≠ a)

/-- How many different ids nodes have; null is no id. -/
def countIds (rows : List NodeRow) : Nat := (distinct (rows.filterMap (·.id))).length

/-- The number of nodes of a selection. -/
def Selection.count (store : Store) (s : Selection) : Nat := countIds (s.nodes store)

/-- Descending order is ascending order the other way round. -/
def directed (descending : Bool) (o : Ordering) : Ordering := if descending then o.swap else o

/-- The first of the values of a field in their order; of values in one place the first entered. -/
def firstValue (store : Store) (node : Datum) (field : String) : Datum :=
  let rows := store.fields.filter fun r => (Datum.text r.node == node) && r.field == field
  match rows.mergeSort fun r r' => r.order.order r'.order != .gt with
  | r :: _ => .ofText? r.value
  | [] => .null

/-- The name of the node with an id. -/
def nameOfNode (store : Store) (id : Datum) : Datum :=
  match store.nodes.find? fun r => !id.isNull && r.cell .id == id with
  | some r => r.cell .name
  | none => .null

/-- The value by which a node is sorted. -/
def SortTerm.value (store : Store) (r : NodeRow) : SortTerm → Datum
  | column c => r.cell c
  | parentName => nameOfNode store (r.cell .parentId)
  | field name => firstValue store (r.cell .id) name

namespace PageStatement

/-- The order of two nodes: by the sort key, then by id. -/
def order (store : Store) (s : PageStatement) (r r' : NodeRow) : Ordering :=
  (directed s.descending ((s.sortBy.value store r).order (s.sortBy.value store r'))).then
    ((r.cell .id).order (r'.cell .id))

/-- All nodes of the statement in order. -/
def nodes (store : Store) (s : PageStatement) : List NodeRow :=
  (distinct (s.selection.nodes store)).mergeSort fun r r' => s.order store r r' != .gt

/-- The nodes of the page. -/
def page (store : Store) (s : PageStatement) : List NodeRow :=
  ((s.nodes store).drop s.offset.toInt.toNat).take s.limit.toInt.toNat

end PageStatement

/-- The keys of a group and the number of its nodes. -/
structure GroupRow where
  keys : List String
  count : Nat
  deriving DecidableEq, Repr, Inhabited

namespace GroupRow

/-- The order of lists of keys: by the first key that differs. -/
def keysOrder : List String → List String → Ordering
  | [], [] => .eq
  | [], _ :: _ => .lt
  | _ :: _, [] => .gt
  | k :: ks, k' :: ks' => (Datum.textOrder k k').then (keysOrder ks ks')

/-- Larger groups come first, then smaller keys. -/
def order (g g' : GroupRow) : Ordering :=
  (compare g'.count g.count).then (keysOrder g.keys g'.keys)

end GroupRow

namespace GroupStatement

/-- The keys of a row. -/
def keysOf (s : GroupStatement) (scope : Scope) : List String :=
  s.keys.map fun e => ((e.value scope).toText?).getD ""

/-- All groups, in the order in which their keys turn up. -/
def groups (store : Store) (s : GroupStatement) : List GroupRow :=
  let rows := (s.selection.rows store).map fun (r, scope) => (s.keysOf scope, r)
  (distinct (rows.map (·.1))).map fun keys =>
    ⟨keys, countIds ((rows.filter (·.1 == keys)).map (·.2))⟩

/-- The largest groups, as many as are wanted. -/
def answer (store : Store) (s : GroupStatement) : List GroupRow :=
  ((s.groups store).mergeSort fun g g' => g.order g' != .gt).take s.limit.toInt.toNat

end GroupStatement

end GraphIndex
