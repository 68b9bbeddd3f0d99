import GraphIndex.Plan.Page
import GraphIndex.Statement.Meaning

/-!
# What conditions mean

The meaning of a tree of conditions for one node, read off the tree itself: no joins, no numbers and
no nested queries. `NodeView` is what conditions see of a node, `Clause.truth` the truth of a clause
and `Entry.truth` that of a tree, in which "not", "and" and "or" keep the unknown.

A comparison with a custom field or with the tags of the parent asks for one value that meets it on
its own, whatever values other clauses are met by.
-/

namespace GraphIndex

/-! ### What is seen of a node -/

/-- What conditions see of a node. -/
structure NodeView where
  /-- The columns of the node. -/
  cell : NodeColumn → Datum
  /-- The name of the parent; null without a stored parent. -/
  parentName : Datum
  /-- The tags of the parent. -/
  parentTags : List String
  /-- Whether any tag is entered under the id of the parent. -/
  isParentTagged : Bool
  /-- The values of a custom field, one for each row that has one. -/
  values : String → List String

namespace Store

variable (store : Store) (r : NodeRow)

/-- The stored node that the parent id names. -/
def parent? : Option NodeRow :=
  store.nodes.find? fun q => r.parentId.isSome && q.id == r.parentId

/-- The tags that are entered under an id. -/
def tagsOf (id : Option String) : List String :=
  (store.tags.filter fun t => id == some t.node).map (·.tag)

/-- The values of a field that are entered under an id. -/
def valuesOf (id : Option String) (field : String) : List String :=
  (store.fields.filter fun f => id == some f.node && f.field == field).filterMap (·.value)

/-- What conditions see of a node of the store. -/
def view : NodeView where
  cell := r.cell
  parentName := ((store.parent? r).map fun q => q.cell .name).getD .null
  parentTags := ((store.parent? r).map fun q => store.tagsOf q.id).getD []
  isParentTagged := !(store.tagsOf r.parentId).isEmpty
  values := store.valuesOf r.id

/-- Whether a node belongs to a target: it carries the tag, or every node is asked for. -/
def isTarget (find : String) : Bool :=
  targetsAllNodes find || store.tags.any fun t => r.id == some t.node && t.tag == find

end Store

/-! ### Operators -/

/-- The value that a bound value stands for: there is no NaN in the store. -/
def Datum.asBound : Datum → Datum
  | real x => .ofReal x
  | d => d

/-- Whether a text is written as a decimal numeral. -/
def isNumeralText (s : List Char) : Bool :=
  someDigit.glob s && !someOther.glob s && !laterSign.glob s && !twoPoints.glob s

/-- Whether a text, made a number, compares with the number that an operand stands for. -/
def Comparison.numberHolds (c : Comparison) (v : Operand) (s : String) : Bool :=
  v.number?.any fun n =>
    (Datum.compare (some .real) none ((Datum.text s).cast .real) n.asBound).any c.holds

namespace Operator

/-- The truth of an operator on a value of a column. -/
def columnTruth (affinity : Affinity) (v : Operand) (d : Datum) : Operator → Option Bool
  | compare c => (Datum.compare (some affinity) none d v.datum.asBound).map c.holds
  | contains =>
    d.chars?.map fun s => Pattern.like (Datum.untilNul (containingPattern v.asText).toList) s
  | present => some !d.isNull
  | missing => some (d.isNull || d == .text "")

/-- Whether a text compares with an operand, or contains it. -/
def textHolds (v : Operand) (s : String) : Operator → Bool
  | compare c => c.holds (Datum.textOrder s v.asText)
  | contains =>
    Pattern.like (Datum.untilNul (containingPattern v.asText).toList) (Datum.untilNul s.toList)
  | present => s != ""
  | missing => s == ""

/-- Whether a value of a custom field meets an operator: by order only numerals compare. -/
def valueHolds (v : Operand) (s : String) (op : Operator) : Bool :=
  match op with
  | compare c =>
    if c.isOrdering then isNumeralText (Datum.untilNul s.toList) && c.numberHolds v s
    else op.textHolds v s
  | _ => op.textHolds v s

/-- A test for absence holds where that for presence does not. -/
theorem match_of_isExistenceTest (op : Operator) (holds : Bool)
    (other : Operator → Option Bool) : op.isExistenceTest = true →
      (match op with
        | .present => some holds
        | .missing => some !holds
        | op => other op) = some (holds == (op == .present)) := by
  intro hop
  cases op with
  | present => cases holds <;> rfl
  | missing => cases holds <;> rfl
  | compare _ => exact Bool.noConfusion hop
  | contains => exact Bool.noConfusion hop

theorem match_of_not_isExistenceTest (op : Operator) (present missing : Option Bool)
    (other : Operator → Option Bool) : op.isExistenceTest = false →
      (match op with
        | .present => present
        | .missing => missing
        | op => other op) = other op := by
  intro hop
  cases op with
  | present => exact Bool.noConfusion hop
  | missing => exact Bool.noConfusion hop
  | compare _ => rfl
  | contains => rfl

end Operator

/-! ### Clauses and trees -/

/-- "Not", if it is wanted; the negation of the unknown is unknown. -/
def negateIf (negated : Bool) (b : Option Bool) : Option Bool := if negated then b.map (!·) else b

namespace Clause

/-- The truth of a clause without its own negation. -/
def positiveTruth (view : NodeView) (c : Clause) : Option Bool :=
  let op := c.effectiveOperator
  match Route.ofField c.field with
  | .error _ => none
  | .ok (.column k) => op.columnTruth (Column.node k).affinity c.value (view.cell k)
  | .ok .parentName =>
    let truth := op.columnTruth .text c.value view.parentName
    if op.isExistenceTest then truth else some (truth == some true)
  | .ok .parentTags =>
    match op with
    | .present => some view.isParentTagged
    | .missing => some !view.isParentTagged
    | op => some (view.parentTags.any fun s => op.textHolds c.value s)
  | .ok (.custom field) =>
    match op with
    | .present => some ((view.values field).any (· != ""))
    | .missing => some !(view.values field).any (· != "")
    | op => some ((view.values field).any fun s => op.valueHolds c.value s)

/-- The truth of a clause. -/
def truth (view : NodeView) (c : Clause) : Option Bool := negateIf c.negated (c.positiveTruth view)

variable {view : NodeView} {c : Clause}

theorem positiveTruth_column {k : NodeColumn} (h : Route.ofField c.field = .ok (.column k)) :
    c.positiveTruth view
      = c.effectiveOperator.columnTruth (Column.node k).affinity c.value (view.cell k) := by
  simp only [positiveTruth, h]

theorem positiveTruth_parentName (h : Route.ofField c.field = .ok .parentName) :
    c.positiveTruth view
      = if c.effectiveOperator.isExistenceTest then
          c.effectiveOperator.columnTruth .text c.value view.parentName
        else some (c.effectiveOperator.columnTruth .text c.value view.parentName == some true) := by
  simp only [positiveTruth, h]

theorem positiveTruth_parentTags_of_test (h : Route.ofField c.field = .ok .parentTags)
    (hop : c.effectiveOperator.isExistenceTest = true) :
    c.positiveTruth view = some (view.isParentTagged == (c.effectiveOperator == .present)) := by
  simp only [positiveTruth, h]
  exact Operator.match_of_isExistenceTest _ _ _ hop

theorem positiveTruth_parentTags (h : Route.ofField c.field = .ok .parentTags)
    (hop : c.effectiveOperator.isExistenceTest = false) :
    c.positiveTruth view
      = some (view.parentTags.any fun s => c.effectiveOperator.textHolds c.value s) := by
  simp only [positiveTruth, h]
  exact Operator.match_of_not_isExistenceTest _ _ _ _ hop

theorem positiveTruth_custom_of_test {field : String}
    (h : Route.ofField c.field = .ok (.custom field))
    (hop : c.effectiveOperator.isExistenceTest = true) :
    c.positiveTruth view
      = some ((view.values field).any (· != "") == (c.effectiveOperator == .present)) := by
  simp only [positiveTruth, h]
  exact Operator.match_of_isExistenceTest _ _ _ hop

theorem positiveTruth_custom {field : String} (h : Route.ofField c.field = .ok (.custom field))
    (hop : c.effectiveOperator.isExistenceTest = false) :
    c.positiveTruth view
      = some ((view.values field).any fun s => c.effectiveOperator.valueHolds c.value s) := by
  simp only [positiveTruth, h]
  exact Operator.match_of_not_isExistenceTest _ _ _ _ hop

end Clause

namespace Entry

mutual

/-- Whether a tree holds a clause; one that does not asks for nothing. -/
def hasClause : Entry → Bool
  | clause _ => true
  | group _ members _ => anyHasClause members

def anyHasClause : List Entry → Bool
  | [] => false
  | e :: rest => e.hasClause || anyHasClause rest

end

mutual

/-- The truth of a tree of conditions. -/
def truth (view : NodeView) : Entry → Option Bool
  | clause c => c.truth view
  | group kind members negated => negateIf negated (kind.fold (truths view members))

/-- The truths of those trees of a list that hold a clause. -/
def truths (view : NodeView) : List Entry → List (Option Bool)
  | [] => []
  | e :: rest => if e.hasClause then e.truth view :: truths view rest else truths view rest

end

theorem truths_eq_flatMap (view : NodeView) (es : List Entry) :
    truths view es = es.flatMap fun e => if e.hasClause then [e.truth view] else [] := by
  induction es with
  | nil => rfl
  | cons e es ih =>
    rw [List.flatMap_cons, truths, ih]
    cases e.hasClause <;> rfl

end Entry

/-- Whether a node belongs to a target and all conditions are true of it. -/
def Store.matches (store : Store) (find : String) (conditions : List Entry) (r : NodeRow) : Bool :=
  store.isTarget r find && (Entry.truths (store.view r) conditions).all (· == some true)

end GraphIndex
