import GraphIndex.Statement.Basic

/-!
# Conditions as statements

`Filter.ofEntries` turns a list of conditions into joins and conditions on the joined rows. A
comparison with a custom field or with a tag of the parent brings in a row of its own, so that each
comparison may be met by another value; under a negation it becomes a nested query, so that the
negation holds exactly where no value meets it. Tests for presence and absence are nested queries
everywhere.

The rows are numbered in the order of the conditions. A number stays taken when a condition turns
out to be at fault.
-/

namespace GraphIndex

/-- Joins, and conditions on the joined rows that must all hold. -/
structure Filter where
  joins : JoinSet
  conditions : List Condition
  deriving Repr, Inhabited

namespace Filter

/-- The filter that lets every node pass. -/
def none : Filter := ⟨.empty, []⟩

/-- A filter of one condition and the joins that it needs. -/
def of (c : Condition) (joins : List Join) : Filter := ⟨.ofList joins, [c]⟩

/-- Both filters. -/
def and (f g : Filter) : Filter := ⟨f.joins.union g.joins, f.conditions ++ g.conditions⟩

/-- All filters, from left to right. -/
def all (fs : List Filter) : Filter := fs.foldl and none

/-- The negation of every condition. -/
def negated (f : Filter) : Filter := { f with conditions := f.conditions.map .not }

/-- The conditions as members of one group; without conditions there is no group. -/
def grouped (kind : Connective) (f : Filter) : Filter :=
  if f.conditions.isEmpty then f else { f with conditions := [.group kind f.conditions] }

end Filter

/-- A computation that gives out numbers and may find a fault. -/
abbrev Numbered (α : Type) : Type := ExceptT Fault (StateM Nat) α

/-- The next free number. -/
def nextNumber : Numbered Nat := modifyGet fun n => (n, n + 1)

/-- The value that is bound for an operand. -/
def Operand.datum : Operand → Datum
  | bool b => .integer (if b then 1 else 0)
  | integer i => .integer i
  | real x => .real x
  | text s => .text s

/-- The pattern of the texts in which a text occurs. -/
def containingPattern (s : String) : String := .ofList (Pattern.containing s.toList)

/-! ### Conditions on one expression -/

/-- The condition that a text is missing or blank. -/
def blankCondition (e : Expr) : Condition :=
  .group .any [.isNull e, .compare e .equal (.quoted "")]

/-- The condition of an operator on an expression; texts are compared with the text of the value,
other columns with the value itself. -/
def valueCondition (e : Expr) (asText : Bool) (v : Operand) : Operator → Condition
  | .compare c => .compare e c (.bound (if asText then .text v.asText else v.datum))
  | .contains => .like e (containingPattern v.asText)
  | .present => .isNotNull e
  | .missing => blankCondition e

/-- Texts in which a digit occurs. -/
def someDigit : Pattern := [.anyRun, .oneOf [.range '0' '9'], .anyRun]

/-- Texts in which something other than digits, points and signs occurs. -/
def someOther : Pattern :=
  [.anyRun, .noneOf [.range '0' '9', .char '.', .char '+', .char '-'], .anyRun]

/-- Texts in which a sign occurs behind the first character. -/
def laterSign : Pattern := [.anyOne, .anyRun, .oneOf [.char '+', .char '-'], .anyRun]

/-- Texts in which two points occur. -/
def twoPoints : Pattern := [.anyRun, .char '.', .anyRun, .char '.', .anyRun]

/-- The conditions under which a text is a decimal numeral. -/
def numeralConditions (e : Expr) : List Condition :=
  [.glob true e someDigit, .glob false e someOther, .glob false e laterSign,
    .glob false e twoPoints]

/-- The number that an operand stands for in a comparison by order. -/
def Operand.number? (v : Operand) : Option Datum :=
  match v with
  | integer i => some (.integer i)
  | real x => some (.real x)
  | text s => (Numeral.binary64? (Text.trim s).toList).map .real
  | bool _ => Option.none

/-- The condition that a text is a numeral and stands in an order to a number. -/
def numericCondition (field : String) (e : Expr) (c : Comparison) (v : Operand) :
    Except Fault Condition :=
  match v.number? with
  | some number =>
    .ok (.group .all (numeralConditions e ++ [.compare (.cast e .real) c (.bound number)]))
  | Option.none => .error (.needsNumber (.compare c) field v.asString?)

/-- The condition of an operator on a value of a custom field. -/
def fieldCondition (field : String) (e : Expr) (v : Operand) (op : Operator) :
    Except Fault Condition :=
  match op with
  | .compare c =>
    if c.isOrdering then numericCondition field e c v else .ok (valueCondition e true v op)
  | _ => .ok (valueCondition e true v op)

/-! ### Joins and nested queries -/

/-- A column of the node that is asked for. -/
def nodeColumn (c : NodeColumn) : Expr := .column .node (.node c)

/-- Two columns are equal. -/
def sameColumns (e d : Expr) : Condition := .compare e .equal d

/-- The join of the parent, which all conditions share. -/
def parentJoin : Join :=
  ⟨.left, ⟨.nodes, .parent⟩, [sameColumns (.column .parent (.node .id)) (nodeColumn .parentId)]⟩

/-- The join that lets only the holders of a tag pass. -/
def tagJoin (tag : String) : Join :=
  ⟨.inner, ⟨.tags, .tagged⟩, [sameColumns (.column .tagged .tagNode) (nodeColumn .id),
    .compare (.column .tagged .tagName) .equal (.bound (.text tag))]⟩

/-- The join of the tags of the joined parent. -/
def parentTagJoin (name : Alias) : Join :=
  ⟨.left, ⟨.tags, name⟩,
    [sameColumns (.column name .tagNode) (.column .parent (.node .id))]⟩

/-- A row holds a value of a field of the node. -/
def ofField (name : Alias) (field : String) : List Condition :=
  [sameColumns (.column name .fieldNode) (nodeColumn .id),
    .compare (.column name .fieldName) .equal (.bound (.text field))]

/-- The join of the values of a custom field. -/
def fieldJoin (name : Alias) (field : String) : Join :=
  ⟨.left, ⟨.fields, name⟩, ofField name field⟩

/-- The node has, or has not, a value of a field that is not blank. -/
def fieldPresence (holds : Bool) (name : Alias) (field : String) : Condition :=
  let value := Expr.column name .fieldValue
  .exists holds ⟨.fields, name⟩
    (ofField name field ++ [.isNotNull value, .compare value .notEqual (.quoted "")])

/-- The parent has, or has not, a tag. -/
def parentTagPresence (holds : Bool) : Condition :=
  .exists holds ⟨.tags, .someParentTag⟩
    [sameColumns (.column .someParentTag .tagNode) (nodeColumn .parentId)]

/-! ### Clauses

`nested` says that the condition stands under a negation, its own or that of a group. -/

/-- A condition on the name of the parent. -/
def parentNameFilter (nested : Bool) (op : Operator) (v : Operand) : Numbered Filter :=
  -- Without a parent a joined name is null, and the negation of the unknown lets no node pass; a
  -- nested query is false there.
  if nested && !op.isExistenceTest then do
    let name := Alias.parentName (← nextNumber)
    return .of (.exists true ⟨.nodes, name⟩
      [sameColumns (.column name (.node .id)) (nodeColumn .parentId),
        valueCondition (.column name (.node .name)) false v op]) []
  else
    return .of (valueCondition (.column .parent (.node .name)) false v op) [parentJoin]

/-- A condition on the tags of the parent. -/
def parentTagsFilter (nested : Bool) (field : String) (op : Operator) (v : Operand) :
    Numbered Filter :=
  if op.isExistenceTest then return .of (parentTagPresence (op == .present)) []
  else if op.isOrdering then throw (.unsupportedOperator op field)
  else do
    let name := Alias.parentTag (← nextNumber)
    let holds := valueCondition (.column name .tagName) true v op
    -- A negated condition on joined rows would ask for some row that does not meet it.
    if nested then
      return .of (.exists true ⟨.tags, name⟩
        [sameColumns (.column name .tagNode) (nodeColumn .parentId), holds]) []
    else return .of holds [parentJoin, parentTagJoin name]

/-- A condition on a custom field. -/
def customFilter (stem : String) (nested : Bool) (field : String) (op : Operator) (v : Operand) :
    Numbered Filter := do
  let name := Alias.fieldValue stem (← nextNumber)
  if op.isExistenceTest then return .of (fieldPresence (op == .present) name field) []
  else
    let holds ← fieldCondition field (.column name .fieldValue) v op
    if nested then return .of (.exists true ⟨.fields, name⟩ (ofField name field ++ [holds])) []
    else return .of holds [fieldJoin name field]

/-- The condition of a clause without its own negation. -/
def Clause.positiveFilter (stem : String) (nested : Bool) (c : Clause) : Numbered Filter :=
  let op := c.effectiveOperator
  match Route.ofField c.field with
  | .error fault => throw (.route fault)
  | .ok (.column column) => return .of (valueCondition (nodeColumn column) false c.value op) []
  | .ok .parentName => parentNameFilter nested op c.value
  | .ok .parentTags => parentTagsFilter nested c.field op c.value
  | .ok (.custom field) => customFilter stem nested field op c.value

/-- The condition of a clause. -/
def Clause.filter (stem : String) (nested : Bool) (c : Clause) : Numbered Filter := do
  let f ← c.positiveFilter stem (nested || c.negated)
  return if c.negated then f.negated else f

/-! ### Entries -/

namespace Entry

mutual

/-- The condition of an entry; none if the entry holds no clause. -/
def filter (stem : String) (nested : Bool) : Entry → Numbered Filter
  | clause c => c.filter stem nested
  | group kind members negated => do
    let fs ← filters stem (nested || negated) members
    let f := (Filter.all fs).grouped kind
    return if negated then f.negated else f

/-- The conditions of entries, from left to right. -/
def filters (stem : String) (nested : Bool) : List Entry → Numbered (List Filter)
  | [] => return []
  | e :: rest => do
    let f ← e.filter stem nested
    let fs ← filters stem nested rest
    return f :: fs

end

end Entry

namespace Filter

/-- The stem of the aliases of field values. -/
def defaultStem : String := "fv"

/-- The filter of one entry, with numbers from `next` on, and the next free number. -/
def ofEntry (stem : String) (e : Entry) (next : Nat) : Except Fault Filter × Nat :=
  (e.filter stem false).run.run next

/-- The filter of entries that must all hold, with numbers from `next` on, and the next free
number. -/
def ofEntriesFrom (stem : String) (es : List Entry) (next : Nat) : Except Fault Filter × Nat :=
  ((Entry.filters stem false es).map all).run.run next

/-- The filter of entries that must all hold. -/
def ofEntries (es : List Entry) : Except Fault Filter := (ofEntriesFrom defaultStem es 0).1

end Filter

end GraphIndex
