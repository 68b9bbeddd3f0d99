import GraphIndex.Proofs.Plan.Calls
import GraphIndex.Proofs.Plan.Dimensions
import GraphIndex.Proofs.Plan.PlainTexts

/-!
# The values that requests bind

`Entry.bindings` lists what an entry binds, apart for joins and for conditions: a comparison its
value or its pattern, a custom field its name besides. The slots of the statements for a page, for
groups and for a total are those of the target, of the joins, of the dimensions and of the
conditions, then that of the sort key and those of the bounds (`slots_filled`).
-/

namespace GraphIndex

open Piece
open Condition (listSlots ListPlain)

/-! ### What operators bind -/

/-- The slot of an operator: of a comparison its value, of a search its pattern. `lead` is what is
written for the compared column. -/
def Operator.slots (lead : String) (asText : Bool) (v : Operand) : Operator → List Slot
  | .compare c => [⟨lead ++ (" " ++ c.symbol ++ " "), if asText then .text v.asText else v.datum⟩]
  | .contains => [⟨lead ++ " LIKE ", .text (containingPattern v.asText)⟩]
  | .present | .missing => []

/-- The slot of an operator on a value of a field: a comparison by order binds a number. -/
def Operator.fieldSlots (lead : String) (v : Operand) (op : Operator) : List Slot :=
  match op with
  | .compare c =>
    if c.isOrdering then
      v.number?.toList.map fun number =>
        ⟨"CAST(" ++ lead ++ " AS REAL)" ++ (" " ++ c.symbol ++ " "), number⟩
    else op.slots lead true v
  | _ => op.slots lead true v

/-- A test for presence binds nothing. -/
theorem Operator.slots_of_isExistenceTest {op : Operator} (h : op.isExistenceTest = true)
    (lead : String) (v : Operand) :
    (∀ asText, op.slots lead asText v = []) ∧ op.fieldSlots lead v = [] := by
  cases op with
  | compare c => exact absurd h Bool.false_ne_true
  | contains => exact absurd h Bool.false_ne_true
  | present => exact ⟨fun _ => rfl, rfl⟩
  | missing => exact ⟨fun _ => rfl, rfl⟩

theorem slots_valueCondition (a : Alias) (k : Column) (asText : Bool) (v : Operand)
    (op : Operator) :
    (valueCondition (.column a k) asText v op).slots = op.slots (columnText a k) asText v := by
  cases op with
  | compare c => simp [valueCondition, Condition.slots, Condition.pieces, Expr.pieces, slotsFrom,
      Operator.slots]
  | contains => simp [valueCondition, Condition.slots, Condition.pieces, Expr.pieces, slotsFrom,
      Operator.slots]
  | present => rfl
  | missing => rfl

theorem slots_fieldCondition {field : String} {a : Alias} {k : Column} {v : Operand}
    {op : Operator} {holds : Condition} (h : fieldCondition field (.column a k) v op = .ok holds) :
    holds.slots = op.fieldSlots (columnText a k) v := by
  rcases fieldCondition_cases h with ⟨hop, rfl⟩ | ⟨c, number, rfl, hc, hnumber, rfl⟩
  · rw [slots_valueCondition]
    cases op with
    | compare c =>
      have hc : ¬ c.isOrdering = true := Bool.eq_false_iff.mp hop
      rw [Operator.fieldSlots, if_neg hc]
    | _ => rfl
  · rw [Operator.fieldSlots, if_pos hc, hnumber]
    simp [numeralComparison, numeralConditions, Condition.slots, listSlots, Condition.pieces,
      Expr.pieces, slotsFrom, Affinity.name, String.append_assoc]

/-! ### What entries bind -/

/-- The slots of joins, and those of conditions. -/
structure Bindings where
  joined : List Slot
  bound : List Slot
  deriving DecidableEq, Repr

namespace Bindings

def none : Bindings := ⟨[], []⟩

/-- The slots of two parts. -/
def and (b b' : Bindings) : Bindings := ⟨b.joined ++ b'.joined, b.bound ++ b'.bound⟩

end Bindings

/-- The slot of the name of a field, whose row has an alias. -/
def fieldNameSlot (name : Alias) (field : String) : Slot :=
  ⟨columnText name .fieldName ++ " = ", .text field⟩

/-- What a clause binds; below a negation everything stands in its condition. -/
def Clause.bindings (stem : String) (nested : Bool) (n : Nat) (c : Clause) : Bindings :=
  let op := c.effectiveOperator
  match Route.ofField c.field with
  | .ok (.column k) => ⟨[], op.slots (columnText .node (.node k)) false c.value⟩
  | .ok .parentName =>
    let name := if nested && !op.isExistenceTest then Alias.parentName n else .parent
    ⟨[], op.slots (columnText name (.node .name)) false c.value⟩
  | .ok .parentTags => ⟨[], op.slots (columnText (.parentTag n) .tagName) true c.value⟩
  | .ok (.custom field) =>
    let name := Alias.fieldValue stem n
    let own := fieldNameSlot name field
    let values := op.fieldSlots (columnText name .fieldValue) c.value
    if nested || op.isExistenceTest then ⟨[], own :: values⟩ else ⟨[own], values⟩
  | .error _ => .none

namespace Entry

mutual

/-- What an entry binds, with numbers from `n` on. -/
def bindings (stem : String) (nested : Bool) (n : Nat) : Entry → Bindings
  | clause c => c.bindings stem (nested || c.negated) n
  | group _ members negated => bindingsAll stem (nested || negated) n members

/-- What entries bind, one after the other. -/
def bindingsAll (stem : String) (nested : Bool) (n : Nat) : List Entry → Bindings
  | [] => .none
  | e :: rest =>
    (e.bindings stem nested n).and
      (bindingsAll stem nested (n + (e.handed stem nested n).length) rest)

end

end Entry

/-! ### What filters bind -/

/-- Members to which nothing is assigned can be left out. -/
theorem flatMap_filter_of_nil {α β : Type} {f : α → List β} {p : α → Bool} {l : List α}
    (h : ∀ a ∈ l, p a = false → f a = []) : (l.filter p).flatMap f = l.flatMap f := by
  induction l with
  | nil => rfl
  | cons a l ih =>
    rw [List.forall_mem_cons] at h
    cases hp : p a with
    | true => rw [List.filter_cons_of_pos hp, List.flatMap_cons, List.flatMap_cons, ih h.2]
    | false =>
      rw [List.filter_cons_of_neg (Bool.eq_false_iff.mp hp), List.flatMap_cons, h.1 hp, ih h.2,
        List.nil_append]

/-- Adding joins adds their slots, if those that are there already have none. -/
theorem JoinSet.slots_insertAll {s : JoinSet} {js : List Join} (hkeys : (js.map Join.key?).Nodup)
    (hdropped : ∀ j ∈ js, s.contains j.key? = true → j.slots = []) :
    (s.insertAll js).slots = s.slots ++ js.flatMap Join.slots := by
  have hkept : (js.filter fun j => !s.contains j.key?).flatMap Join.slots
      = js.flatMap Join.slots := by
    refine flatMap_filter_of_nil fun j hj hcontains => hdropped j hj ?_
    rw [Bool.not_eq_false'] at hcontains
    exact hcontains
  rw [JoinSet.slots, joins_insertAll_of_nodup hkeys, List.flatMap_append, hkept]
  rfl

namespace Filter

/-- The slots of a filter, all of whose texts are plain. -/
structure Binds (f : Filter) (b : Bindings) : Prop where
  plainJoins : f.joins.IsPlain
  plainConditions : ListPlain f.conditions
  joined : f.joins.slots = b.joined
  bound : listSlots f.conditions = b.bound

theorem binds_none : none.Binds .none :=
  ⟨fun _ h => absurd h List.not_mem_nil, Condition.listPlain_nil, rfl, rfl⟩

variable {stem : String} {lo mid hi : Nat} {f g : Filter} {b b' : Bindings}

/-- The join of the parent, which is the only one that can be dropped, binds nothing. -/
theorem Binds.and (hf : Drawn stem lo mid f) (hg : Drawn stem mid hi g) (h : f.Binds b)
    (h' : g.Binds b') : (f.and g).Binds (b.and b') where
  plainJoins := by
    intro j hj
    rcases (mem_and_iff hf hg j).mp hj with hj | hj
    · exact h.plainJoins j hj
    · exact h'.plainJoins j hj
  plainConditions := Condition.listPlain_append.mpr ⟨h.plainConditions, h'.plainConditions⟩
  joined := by
    -- Only the join of the parent can be dropped, and it binds nothing.
    have hdropped : ∀ j ∈ g.joins.joins, f.joins.contains j.key? = true → j.slots = [] := by
      intro j hj hc
      rw [eq_parentJoin_of_contains hf.joins (hg.joins j hj) hc]
      rfl
    have hunion : (f.and g).joins.slots = f.joins.slots ++ g.joins.slots :=
      JoinSet.slots_insertAll hg.distinct hdropped
    rw [hunion, h.joined, h'.joined]
    rfl
  bound := by
    show listSlots (f.conditions ++ g.conditions) = b.bound ++ b'.bound
    rw [Condition.listSlots_append, h.bound, h'.bound]

theorem Binds.negated (h : f.Binds b) : f.negated.Binds b where
  plainJoins := h.plainJoins
  plainConditions := Condition.listPlain_map_not h.plainConditions
  joined := h.joined
  bound := (Condition.listSlots_map_not _).trans h.bound

theorem Binds.grouped (kind : Connective) (h : f.Binds b) : (f.grouped kind).Binds b := by
  unfold Filter.grouped
  split
  · exact h
  · refine ⟨h.plainJoins, ?_, h.joined, ?_⟩
    · exact Condition.listPlain_singleton (Condition.plain_group kind h.plainConditions)
    · have hslots : listSlots [.group kind f.conditions] = listSlots f.conditions ++ [] := rfl
      rw [hslots, List.append_nil, h.bound]

/-- A filter of one condition and joins of different keys. -/
theorem binds_of {condition : Condition} {js : List Join} (hkeys : (js.map Join.key?).Nodup)
    (hjs : ∀ j ∈ js, j.IsPlain) (hcondition : Plain condition.pieces) :
    (Filter.of condition js).Binds ⟨js.flatMap Join.slots, condition.slots⟩ := by
  have hjoins : (Filter.of condition js).joins.joins = js := JoinSet.joins_ofList hkeys
  refine ⟨?_, Condition.listPlain_singleton hcondition, ?_, ?_⟩
  · unfold JoinSet.IsPlain
    rw [hjoins]
    exact hjs
  · rw [JoinSet.slots, hjoins]
  · have hslots : listSlots [condition] = condition.slots ++ [] := rfl
    exact hslots.trans (List.append_nil _)

end Filter

/-! ### Joins and nested queries -/

section

variable {a : Alias}

theorem plain_sameColumns (ha : isInert a.name = true) (k : Column) (l : NodeColumn) :
    Plain (sameColumns (.column a k) (nodeColumn l)).pieces :=
  Condition.plain_compare (Expr.plain_column ha k) (Expr.plain_column (by decide) (.node l)) .equal

theorem listPlain_ofField (ha : isInert a.name = true) (field : String) :
    ListPlain (ofField a field) :=
  Condition.listPlain_cons.mpr ⟨plain_sameColumns ha .fieldNode .id,
    Condition.listPlain_singleton (Condition.plain_compare (Expr.plain_column ha .fieldName)
      (Expr.plain_bound _) .equal)⟩

theorem listSlots_ofField (a : Alias) (field : String) :
    listSlots (ofField a field) = [fieldNameSlot a field] := by
  simp [ofField, sameColumns, nodeColumn, listSlots, Condition.slots, Condition.pieces, Expr.pieces,
    slotsFrom, fieldNameSlot, Comparison.symbol]

theorem isInert_fieldJoin (ha : isInert a.name = true) (field : String) :
    (fieldJoin a field).IsPlain :=
  ⟨ha, listPlain_ofField ha field⟩

theorem slots_fieldJoin (a : Alias) (field : String) :
    (fieldJoin a field).slots = [fieldNameSlot a field] :=
  listSlots_ofField a field

theorem isInert_parentJoin : parentJoin.IsPlain :=
  ⟨by decide, Condition.listPlain_singleton (plain_sameColumns (by decide) (.node .id) .parentId)⟩

theorem isInert_parentTagJoin (ha : isInert a.name = true) : (parentTagJoin a).IsPlain :=
  ⟨ha, Condition.listPlain_singleton (Condition.plain_compare (Expr.plain_column ha .tagNode)
    (Expr.plain_column (by decide) (.node .id)) .equal)⟩

/-- The slots of a nested query on a row that belongs to the node. -/
theorem slots_exists_linked {holds : Bool} {source : Source} {k : Column} {l : NodeColumn}
    {condition : Condition} : (Condition.exists holds source
      [sameColumns (.column a k) (nodeColumn l), condition]).slots = condition.slots := by
  have hslots : (Condition.exists holds source
      [sameColumns (.column a k) (nodeColumn l), condition]).slots
        = [] ++ (condition.slots ++ []) := rfl
  rw [hslots, List.nil_append, List.append_nil]

end

namespace Clause

variable {stem : String} {c : Clause} {nested : Bool} {n k : Nat} {f : Filter}

theorem binds_of_nil {condition : Condition} (h : Plain condition.pieces) :
    (Filter.of condition []).Binds ⟨[], condition.slots⟩ := by
  have hkeys : (([] : List Join).map Join.key?).Nodup := List.nodup_nil
  exact Filter.binds_of hkeys (fun _ h => absurd h List.not_mem_nil) h

/-- A condition on a column of a row, and the joins that bring the row in. -/
theorem binds_of_value {js : List Join} {a : Alias} {k : Column} (ha : isInert a.name = true)
    (asText : Bool) (v : Operand) (op : Operator) (hkeys : (js.map Join.key?).Nodup)
    (hjs : ∀ j ∈ js, j.IsPlain) :
    (Filter.of (valueCondition (.column a k) asText v op) js).Binds
      ⟨js.flatMap Join.slots, op.slots (columnText a k) asText v⟩ := by
  have hbinds := Filter.binds_of hkeys hjs
    (Condition.plain_valueCondition (Expr.plain_column ha k) asText v op)
  rw [slots_valueCondition] at hbinds
  exact hbinds

/-- A nested query for a row that belongs to the node and has some value. -/
theorem binds_of_linked (source : Source) {k l : Column} {m : NodeColumn}
    (ha : isInert source.name.name = true) (asText : Bool) (v : Operand) (op : Operator) :
    (Filter.of (.exists true source [sameColumns (.column source.name k) (nodeColumn m),
      valueCondition (.column source.name l) asText v op]) []).Binds
      ⟨[], op.slots (columnText source.name l) asText v⟩ := by
  have hplain : Plain (Condition.exists true source [sameColumns (.column source.name k)
      (nodeColumn m), valueCondition (.column source.name l) asText v op]).pieces :=
    Condition.plain_exists true ha (Condition.listPlain_cons.mpr ⟨plain_sameColumns ha k m,
      Condition.listPlain_singleton
        (Condition.plain_valueCondition (Expr.plain_column ha l) asText v op)⟩)
  have hbinds := binds_of_nil hplain
  rw [slots_exists_linked, slots_valueCondition] at hbinds
  exact hbinds

/-- A nested query for a value of a field. -/
theorem binds_of_fieldRow {a : Alias} (ha : isInert a.name = true) (holds : Bool) (field : String)
    {conditions : List Condition} (hconditions : ListPlain conditions) :
    (Filter.of (.exists holds ⟨.fields, a⟩ (ofField a field ++ conditions)) []).Binds
      ⟨[], fieldNameSlot a field :: listSlots conditions⟩ := by
  have hplain :
      Plain (Condition.exists holds ⟨.fields, a⟩ (ofField a field ++ conditions)).pieces :=
    Condition.plain_exists holds ha
      (Condition.listPlain_append.mpr ⟨listPlain_ofField ha field, hconditions⟩)
  have hslots : (Condition.exists holds ⟨.fields, a⟩ (ofField a field ++ conditions)).slots
      = fieldNameSlot a field :: listSlots conditions := by
    rw [Condition.slots, Condition.listSlots_append, listSlots_ofField]
    rfl
  have hbinds := binds_of_nil hplain
  rw [hslots] at hbinds
  exact hbinds

theorem binds_of_parentTagPresence (holds : Bool) :
    (Filter.of (GraphIndex.parentTagPresence holds) []).Binds .none := by
  have hplain : Plain (GraphIndex.parentTagPresence holds).pieces :=
    Condition.plain_exists holds (by decide)
      (Condition.listPlain_singleton (plain_sameColumns (by decide) .tagNode .parentId))
  exact binds_of_nil hplain

theorem binds_of_fieldPresence {a : Alias} (ha : isInert a.name = true) (holds : Bool)
    (field : String) :
    (Filter.of (GraphIndex.fieldPresence holds a field) []).Binds
      ⟨[], [fieldNameSlot a field]⟩ := by
  have hvalue : Plain (Expr.column a .fieldValue).pieces := Expr.plain_column ha .fieldValue
  have hblank : Plain (Expr.quoted "").pieces := plain_text_cons.mpr ⟨by decide, plain_nil⟩
  have hnull : Plain (Condition.isNotNull (.column a .fieldValue)).pieces :=
    plain_append.mpr ⟨hvalue, plain_text_cons.mpr ⟨by decide, plain_nil⟩⟩
  have hrow : ListPlain [.isNotNull (.column a .fieldValue),
      .compare (.column a .fieldValue) .notEqual (.quoted "")] :=
    Condition.listPlain_cons.mpr ⟨hnull,
      Condition.listPlain_singleton (Condition.plain_compare hvalue hblank .notEqual)⟩
  exact binds_of_fieldRow ha holds field hrow

/-- A filter binds what its clause binds. -/
theorem Becomes.binds (hstem : isInert stem = true) (h : c.Becomes stem nested n f k) :
    f.Binds (c.bindings stem nested n) := by
  have hnil : (([] : List Join).map Join.key?).Nodup := List.nodup_nil
  have hnone : ∀ j ∈ ([] : List Join), j.IsPlain := fun _ h => absurd h List.not_mem_nil
  have hfield : isInert (Alias.fieldValue stem n).name = true := Alias.isInert_fieldValue hstem n
  unfold Clause.bindings
  cases h with
  | column k hroute =>
    rw [hroute]
    exact binds_of_value (by decide) false c.value _ hnil hnone
  | parentName hroute hjoined =>
    have hkeys : ([parentJoin].map Join.key?).Nodup := List.nodup_singleton _
    simp only [hroute, if_neg (joined_iff.mpr hjoined)]
    exact binds_of_value (by decide) false c.value _ hkeys
      (List.forall_mem_singleton.mpr isInert_parentJoin)
  | nestedParentName hroute hop =>
    simp only [hroute, hop, Bool.not_false, Bool.and_self, if_pos]
    exact binds_of_linked ⟨.nodes, .parentName n⟩ (Alias.isInert_parentName n) false c.value _
  | parentTagPresence hroute hop =>
    simp only [hroute, (Operator.slots_of_isExistenceTest hop _ _).1]
    exact binds_of_parentTagPresence _
  | parentTag hroute hop hordering =>
    have htag : isInert (Alias.parentTag n).name = true := Alias.isInert_parentTag n
    rw [hroute]
    exact binds_of_value htag true c.value _ (nodup_keys_parentTag n)
      (List.forall_mem_cons.mpr ⟨isInert_parentJoin,
        List.forall_mem_singleton.mpr (isInert_parentTagJoin htag)⟩)
  | nestedParentTag hroute hop hordering =>
    rw [hroute]
    exact binds_of_linked ⟨.tags, .parentTag n⟩ (Alias.isInert_parentTag n) true c.value _
  | fieldPresence field hroute hop =>
    simp only [hroute, hop, Bool.or_true, if_pos, (Operator.slots_of_isExistenceTest hop _ _).2]
    exact binds_of_fieldPresence hfield _ field
  | field field holds hroute hop hholds =>
    have hplain := Condition.plain_fieldCondition (Expr.plain_column hfield .fieldValue) hholds
    have hkeys : ([fieldJoin (.fieldValue stem n) field].map Join.key?).Nodup :=
      List.nodup_singleton _
    have hbinds := Filter.binds_of hkeys
      (List.forall_mem_singleton.mpr (isInert_fieldJoin hfield field)) hplain
    rw [slots_fieldCondition hholds] at hbinds
    simp only [hroute, hop, Bool.or_self, if_neg Bool.false_ne_true]
    exact hbinds
  | nestedField field holds hroute hop hholds =>
    have hplain := Condition.plain_fieldCondition (Expr.plain_column hfield .fieldValue) hholds
    have hbinds := binds_of_fieldRow hfield true field (Condition.listPlain_singleton hplain)
    have hslots : listSlots [holds] = holds.slots ++ [] := rfl
    rw [hslots, List.append_nil, slots_fieldCondition hholds] at hbinds
    simp only [hroute, Bool.true_or, if_pos]
    exact hbinds

end Clause

namespace Entry

variable {stem : String}

theorem binds_all {es : List Entry} {nested : Bool}
    (hes : ∀ e ∈ es, ∀ {n k f}, Yields (e.filter stem nested) n f k →
      f.Binds (e.bindings stem nested n))
    {n k : Nat} {fs : List Filter} (h : Yields (filters stem nested es) n fs k) :
    (Filter.all fs).Binds (bindingsAll stem nested n es) := by
  induction es generalizing n fs with
  | nil =>
    obtain ⟨rfl, -⟩ := yields_nil h
    exact Filter.binds_none
  | cons e es ih =>
    obtain ⟨f, gs, i, rfl, hf, hgs, hdrawn, hrest⟩ := exists_drawn_of_yields_cons h
    rw [List.forall_mem_cons] at hes
    -- The next entry goes on behind the aliases that this one was handed.
    have hnext : i = n + (e.handed stem nested n).length := by
      have htaken : ((e.filter stem nested).run.run n).2 = n + (e.handed stem nested n).length :=
        e.next_eq nested n
      rw [hf] at htaken
      exact htaken
    rw [Filter.all_cons hdrawn.distinct, bindingsAll, ← hnext]
    exact (hes.1 hf).and hdrawn hrest (ih hes.2 hgs)

/-- A filter binds what its entry binds, also where the entry is a group or is negated. -/
theorem binds (hstem : isInert stem = true) (e : Entry) :
    ∀ {nested : Bool} {n k : Nat} {f : Filter}, Yields (e.filter stem nested) n f k →
      f.Binds (e.bindings stem nested n) := by
  induction e using Entry.induction with
  | clause c =>
    intro nested n k f h
    obtain ⟨g, hg, rfl⟩ := yields_clause h
    have hclause : g.Binds (c.bindings stem (nested || c.negated) n) := hg.binds hstem
    split
    · exact hclause.negated
    · exact hclause
  | group kind members negated ih =>
    intro nested n k f h
    obtain ⟨fs, hfs, rfl⟩ := yields_group h
    have hall : (Filter.all fs).Binds (bindingsAll stem (nested || negated) n members) :=
      binds_all (fun e he => ih e he) hfs
    split
    · exact (hall.grouped kind).negated
    · exact hall.grouped kind

end Entry

/-! ### What statements bind -/

namespace Filter

theorem Binds.filled {f : Filter} {b : Bindings} (h : f.Binds b) :
    Filled (textOf f.joins.pieces) (valuesOf f.joins.pieces) b.joined ∧
    Filled (textOf (Condition.allPieces f.conditions)) (valuesOf (Condition.allPieces f.conditions))
      b.bound := by
  have hjoins := JoinSet.writes h.plainJoins
  have hconditions := Condition.writes_allPieces h.plainConditions
  rw [h.joined] at hjoins
  rw [h.bound] at hconditions
  exact ⟨hjoins.filled, hconditions.filled⟩

namespace Call

/-- What a call binds, with numbers from `n` on. -/
def bindings (stem : String) (n : Nat) : Call → Bindings
  | one e => e.bindings stem false n
  | all es => Entry.bindingsAll stem false n es

theorem binds {stem : String} (hstem : isInert stem = true) {c : Call} {n k : Nat} {f : Filter}
    (h : c.run stem n = (.ok f, k)) : f.Binds (c.bindings stem n) := by
  cases c with
  | one e => exact e.binds hstem h
  | all es =>
    obtain ⟨fs, hfs, rfl⟩ := yields_map.mp h
    exact Entry.binds_all (fun e _ => e.binds hstem) hfs

end Call

end Filter

/-- The slot of a target: its tag, unless every node is asked for. -/
def targetSlots (find : String) : List Slot :=
  if targetsAllNodes find then [] else [⟨columnText .tagged .tagName ++ " = ", .text find⟩]

/-- What the entries of a statement bind. -/
def statementBindings (es : List Entry) : Bindings :=
  Entry.bindingsAll Filter.defaultStem false 0 es

namespace Selection

/-- The target stands in front of the joins of the conditions, none of which is lost. -/
theorem slots_of {find : String} {es : List Entry} {s : Selection}
    (h : Selection.of find es = .ok s) : s.IsPlain ∧
      s.joins.slots = targetSlots find ++ (statementBindings es).joined ∧
      listSlots s.conditions = (statementBindings es).bound := by
  obtain ⟨f, hf, rfl⟩ := Selection.of_eq_ok_iff.mp h
  obtain ⟨k, hdrawn⟩ := Filter.drawn_of_ofEntries hf
  have hstem : isInert Filter.defaultStem = true := by decide
  have hbinds : f.Binds (statementBindings es) := by
    obtain ⟨fs, k, hfs, rfl⟩ := Filter.yields_of_ofEntries hf
    exact Entry.binds_all (fun e _ => e.binds hstem) hfs
  have htarget : (targetJoins find).slots = targetSlots find := by
    rw [JoinSet.slots, joins_targetJoins, targetSlots]
    split
    · rfl
    · simp [Join.slots, tagJoin, sameColumns, nodeColumn, listSlots, Condition.slots,
        Condition.pieces, Expr.pieces, slotsFrom, Comparison.symbol]
  have hnew : ∀ j ∈ f.joins.joins, (targetJoins find).contains j.key? = true → j.slots = [] := by
    intro j hj hc
    obtain ⟨j', hj', hkey⟩ := (JoinSet.contains_iff _ _).mp hc
    rw [eq_tagJoin_of_mem hj'] at hkey
    -- No join of a condition has the key of the target.
    cases hdrawn.joins j hj with
    | parent => exact absurd (Option.some.inj hkey) (by simp)
    | parentTag k _ _ => exact absurd (Option.some.inj hkey) (by simp)
    | field k name _ _ => exact absurd (Option.some.inj hkey) (by simp)
  refine ⟨⟨fun j hj => ?_, hbinds.plainConditions⟩, ?_, hbinds.bound⟩
  · rcases (JoinSet.mem_insertAll_iff (separate_targetJoins hdrawn) j).mp hj with hj | hj
    · rw [eq_tagJoin_of_mem hj]
      have hplain : ListPlain (tagJoin find).on :=
        Condition.listPlain_cons.mpr ⟨plain_sameColumns (by decide) .tagNode .id,
          Condition.listPlain_singleton (Condition.plain_compare
            (Expr.plain_column (by decide) .tagName) (Expr.plain_bound _) .equal)⟩
      have hname : isInert Alias.tagged.name = true := by decide
      exact ⟨hname, hplain⟩
    · exact hbinds.plainJoins j hj
  · have hunion := JoinSet.slots_insertAll hdrawn.distinct hnew
    rw [htarget, ← JoinSet.slots, hbinds.joined] at hunion
    exact hunion

end Selection

/-! ### Dimensions -/

theorem bare_dateExpr {format : List DatePart}
    (hformat : isInert ("strftime(" ++ quotedText (formatText format) ++ ", ") = true)
    (c : DateColumn) : Bare (dateExpr format c).pieces := by
  have hcolumn : Bare (nodeColumn c.column).pieces :=
    bare_text (isInert_columnText (by decide) (.node c.column))
  have hseconds := hcolumn.append (Bare.text_cons (s := " / ") (by decide)
    (bare_text (isInert_number 1000)))
  exact Bare.text_cons hformat (hseconds.append (bare_text (by decide)))

/-- The text of a period is plain and binds nothing. -/
theorem Period.bare_expr (p : Period) (c : DateColumn) : Bare (p.expr c).pieces := by
  cases p with
  | quarter =>
    -- The quarter alone is put together from pieces: the year, a mark and a number.
    have hyear : Bare (dateExpr [.year] c).pieces := bare_dateExpr (by decide) c
    have hmonth : Bare ((dateExpr [.month] c).cast .integer).pieces :=
      Bare.text_cons (by decide) ((bare_dateExpr (by decide) c).append (bare_text (by decide)))
    have hsum := hmonth.append (Bare.text_cons (s := " + ") (by decide)
      (bare_text (isInert_number 2)))
    have hparens := Bare.text_cons (s := "(") (by decide)
      (hsum.append (bare_text (s := ")") (by decide)))
    have hquotient := hparens.append (Bare.text_cons (s := " / ") (by decide)
      (bare_text (isInert_number 3)))
    have hnumber := Bare.text_cons (s := "(") (by decide)
      (hquotient.append (bare_text (s := ")") (by decide)))
    have hmark : Bare (Expr.quoted "-Q").pieces := bare_text (by decide)
    have hconcat : isInert " || " = true := by decide
    exact (hyear.append (Bare.text_cons hconcat hmark)).append (Bare.text_cons hconcat hnumber)
  | day => exact bare_dateExpr (by decide) c
  | week => exact bare_dateExpr (by decide) c
  | month => exact bare_dateExpr (by decide) c
  | year => exact bare_dateExpr (by decide) c

namespace Dimension

/-- The slot of a dimension: of a custom field its name. -/
def slots (place : Nat) : Dimension → List Slot
  | period _ _ => []
  | field name =>
    match Route.ofField name with
    | .ok (.custom own) => [fieldNameSlot (.dimension place) own]
    | _ => []

/-- The slots of dimensions from a place on. -/
def slotsAll (place : Nat) : List Dimension → List Slot
  | [] => []
  | d :: rest => d.slots place ++ slotsAll (place + 1) rest

variable {place : Nat} {d : Dimension} {key : GroupKey}

theorem Becomes.nodup_keys (h : d.Becomes place key) : (key.joins.map Join.key?).Nodup := by
  cases h with
  | period p c => exact List.nodup_nil
  | column c hroute => exact List.nodup_nil
  | parentName hroute => exact List.nodup_singleton _
  | parentTags hroute => exact List.nodup_cons.mpr ⟨by simp [Join.key?, parentJoin, parentTagJoin,
      Alias.joinKey?], List.nodup_singleton _⟩
  | custom field hroute => exact List.nodup_singleton _

theorem Becomes.isInert_joins (h : d.Becomes place key) : ∀ j ∈ key.joins, j.IsPlain := by
  have hrow : isInert (Alias.dimension place).name = true := Alias.isInert_dimension place
  cases h with
  | period p c => exact fun j hj => absurd hj List.not_mem_nil
  | column c hroute => exact fun j hj => absurd hj List.not_mem_nil
  | parentName hroute => exact List.forall_mem_singleton.mpr isInert_parentJoin
  | parentTags hroute => exact List.forall_mem_cons.mpr ⟨isInert_parentJoin,
      List.forall_mem_singleton.mpr (isInert_parentTagJoin hrow)⟩
  | custom field hroute => exact List.forall_mem_singleton.mpr (isInert_fieldJoin hrow field)

theorem Becomes.slots_joins (h : d.Becomes place key) :
    key.joins.flatMap Join.slots = d.slots place := by
  cases h with
  | period p c => rfl
  | column c hroute => rw [Dimension.slots, hroute]; rfl
  | parentName hroute => rw [Dimension.slots, hroute]; rfl
  | parentTags hroute => rw [Dimension.slots, hroute]; rfl
  | custom field hroute =>
    rw [Dimension.slots, hroute]
    exact (List.append_nil _).trans (slots_fieldJoin _ field)

/-- The key of a dimension is plain text and binds nothing. -/
theorem Becomes.bare_expr (h : d.Becomes place key) : Bare key.expr.pieces := by
  have horText : ∀ {e : Expr}, Bare e.pieces → Bare (Expr.orText e noneKey).pieces := fun he =>
    Bare.text_cons (by decide) (he.append (bare_text (by decide)))
  cases h with
  | period p c => exact horText (Period.bare_expr p c)
  | column c hroute =>
    have hcolumn : Bare (nodeColumn c).pieces :=
      bare_text (isInert_columnText (by decide) (.node c))
    exact horText (Bare.text_cons (by decide) (hcolumn.append (bare_text (by decide))))
  | parentName hroute => exact horText (bare_text (by decide))
  | parentTags hroute =>
    exact horText (bare_text (isInert_columnText (Alias.isInert_dimension place) .tagName))
  | custom field hroute =>
    exact horText (bare_text (isInert_columnText (Alias.isInert_dimension place) .fieldValue))

end Dimension

namespace JoinSet

variable {place : Nat} {s : JoinSet}

/-- **One more dimension** adds its slot behind those of the joins that are there. -/
theorem Arranged.slots_insertKey (hs : s.Arranged place) {d : Dimension} {key : GroupKey}
    (h : d.Becomes place key) :
    (s.insertAll key.joins).slots = s.slots ++ d.slots place := by
  have hdropped : ∀ j ∈ key.joins, s.contains j.key? = true → j.slots = [] := by
    intro j hj hc
    rcases h.mem_joins j hj with rfl | ⟨hown, -⟩
    · rfl
    · obtain ⟨j', hj', hkey⟩ := (contains_iff _ _).mp hc
      exact absurd (hkey.trans hown) (hs.joins j' hj').key?_ne
  rw [slots_insertAll h.nodup_keys hdropped, h.slots_joins]

theorem Arranged.slots_insertKeys {ds : List Dimension} {keys : List GroupKey}
    (h : Dimension.BecomeAll place ds keys) : ∀ {s : JoinSet}, s.Arranged place →
      (s.insertAll (keys.flatMap GroupKey.joins)).slots
        = s.slots ++ Dimension.slotsAll place ds := by
  induction h with
  | nil => exact fun _ => (List.append_nil _).symm
  | cons hkey _ ih =>
    intro s hs
    rw [List.flatMap_cons, insertAll_append, ih (hs.insertKey hkey), hs.slots_insertKey hkey,
      Dimension.slotsAll, List.append_assoc]

end JoinSet

/-! ### Statements -/

/-- The slot of a sort key: the name of a custom field. -/
def sortSlots (field : String) : List Slot :=
  match Route.ofField field with
  | .ok (.custom name) => [fieldNameSlot .sortField name]
  | _ => []

theorem SortTerm.slots_of_ofField {field : String} {t : SortTerm}
    (h : SortTerm.ofField field = .ok t) :
    t.slots = sortSlots field := by
  unfold SortTerm.ofField at h
  unfold sortSlots
  cases hroute : Route.ofField field with
  | error fault =>
    rw [hroute] at h
    exact absurd h (by rintro ⟨⟩)
  | ok route =>
    rw [hroute] at h
    cases route with
    | column c => rw [← Except.ok.inj h]; rfl
    | parentName => rw [← Except.ok.inj h]; rfl
    | parentTags => exact absurd h (by rintro ⟨⟩)
    | custom name => rw [← Except.ok.inj h]; rfl

/-- The slots of the statement for a page: those of the target, of the joined fields and of the
conditions, of the sort key, and the bounds of the page. -/
def Query.slots (q : Query) : List Slot :=
  let b := statementBindings q.conditions
  targetSlots q.find ++ b.joined ++ b.bound ++ sortSlots q.sortKey.field
    ++ [⟨" LIMIT ", .integer q.limit⟩, ⟨" OFFSET ", .integer q.offset⟩]

/-- The slots of the statement for groups: those of the target, of the joined fields, of the
dimensions and of the conditions, and how many groups are wanted. -/
def Aggregation.slots (a : Aggregation) : List Slot :=
  let b := statementBindings a.conditions
  targetSlots a.find ++ b.joined ++ Dimension.slotsAll 0 a.dimensions ++ b.bound
    ++ [⟨" LIMIT ", .integer (successor a.cap)⟩]

/-- The slots of the statement for a total. -/
def totalSlots (find : String) (es : List Entry) : List Slot :=
  let b := statementBindings es
  targetSlots find ++ b.joined ++ b.bound

theorem Query.filled_of_statement {q : Query} {s : PageStatement} (h : q.statement = .ok s) :
    Filled s.sql s.values q.slots := by
  simp only [Query.statement, bind_eq_ok_iff] at h
  obtain ⟨selection, hselection, term, hterm, hpure⟩ := h
  have heq : s = ⟨selection, term, q.sortKey.descending, q.limit, q.offset⟩ :=
    (Except.ok.inj hpure).symm
  obtain ⟨hplain, hjoined, hbound⟩ := Selection.slots_of hselection
  have hslots : s.slots = q.slots := by
    rw [heq]
    unfold PageStatement.slots Selection.slots Query.slots
    rw [hjoined, hbound, SortTerm.slots_of_ofField hterm]
  have hselected : s.selection.IsPlain := by
    rw [heq]
    exact hplain
  rw [← hslots]
  exact (PageStatement.writes hselected).filled

theorem Selection.filled_of {find : String} {es : List Entry} {s : Selection}
    (h : Selection.of find es = .ok s) : Filled s.countSql s.countValues (totalSlots find es) := by
  obtain ⟨hplain, hjoined, hbound⟩ := Selection.slots_of h
  have hslots : s.slots = totalSlots find es := by
    unfold Selection.slots totalSlots
    rw [hjoined, hbound]
  rw [← hslots]
  exact (Selection.writes_countPieces hplain).filled

namespace Aggregation

variable {a : Aggregation} {s : GroupStatement}

/-- The joins of dimensions are as plain as those of the selection. -/
theorem isInert_of_statement (h : a.statement = .ok s) :
    s.selection.IsPlain ∧ ∀ e ∈ s.keys, Bare e.pieces := by
  obtain ⟨selection, keys, hselection, hkeys, rfl⟩ := exists_of_statement h
  obtain ⟨hplain, -⟩ := Selection.slots_of hselection
  have hmem := (JoinSet.Arranged.insertKeys hkeys (JoinSet.arranged_of_selection hselection)).2
  refine ⟨⟨fun j hj => ?_, hplain.conditions⟩, fun e he => ?_⟩
  · rcases (hmem j).mp hj with hj | ⟨key, hkey, hj⟩
    · exact hplain.joins j hj
    · obtain ⟨place, d, hbecomes⟩ := hkeys.exists_of_mem key hkey
      exact hbecomes.isInert_joins j hj
  · obtain ⟨key, hkey, rfl⟩ := List.mem_map.mp he
    obtain ⟨place, d, hbecomes⟩ := hkeys.exists_of_mem key hkey
    exact hbecomes.bare_expr

theorem slots_of_statement (h : a.statement = .ok s) : s.slots = a.slots := by
  obtain ⟨-, hbare⟩ := isInert_of_statement h
  obtain ⟨selection, keys, hselection, hkeys, heq⟩ := exists_of_statement h
  obtain ⟨-, hjoined, hbound⟩ := Selection.slots_of hselection
  -- The keys stand in front of the joins but have no marks of their own.
  have hnone : s.keys.flatMap (fun e => slotsFrom "" e.pieces) = [] :=
    List.flatMap_eq_nil_iff.mpr fun e he => (hbare e he).slotsFrom_eq_nil ""
  have hjoins := JoinSet.Arranged.slots_insertKeys hkeys (JoinSet.arranged_of_selection hselection)
  have hselected : s.selection.slots = targetSlots a.find ++ (statementBindings a.conditions).joined
      ++ Dimension.slotsAll 0 a.dimensions ++ (statementBindings a.conditions).bound := by
    rw [heq]
    unfold Selection.slots
    rw [hjoins, hjoined, hbound]
  have hlimit : s.limit = successor a.cap := by rw [heq]
  unfold GroupStatement.slots Aggregation.slots
  rw [hnone, List.nil_append, hselected, hlimit]

theorem filled_of_statement (h : a.statement = .ok s) : Filled s.sql s.values a.slots := by
  obtain ⟨hplain, hbare⟩ := isInert_of_statement h
  have hwrites := GroupStatement.writes hplain fun e he => (hbare e he).plain
  rw [slots_of_statement h] at hwrites
  exact hwrites.filled

end Aggregation

/-- **Every mark has its own value**: the joins and the conditions that a call compiles, and the
statements for a page, for groups and for a total, have as many question marks outside of quotes as
they bind values, and each mark stands where the part of the request is written that its value comes
from. -/
theorem slots_filled :
    (∀ stem, isInert stem = true → ∀ (c : Filter.Call) (n : Nat) (f : Filter) (k : Nat),
      c.run stem n = (.ok f, k) →
      Filled (textOf f.joins.pieces) (valuesOf f.joins.pieces) (c.bindings stem n).joined ∧
      Filled (textOf (Condition.allPieces f.conditions))
        (valuesOf (Condition.allPieces f.conditions)) (c.bindings stem n).bound) ∧
    (∀ (q : Query) (s : PageStatement), q.statement = .ok s → Filled s.sql s.values q.slots) ∧
    (∀ (a : Aggregation) (s : GroupStatement), a.statement = .ok s →
      Filled s.sql s.values a.slots) ∧
    ∀ (find : String) (es : List Entry) (s : Selection), Selection.of find es = .ok s →
      Filled s.countSql s.countValues (totalSlots find es) :=
  ⟨fun _ hstem _ _ _ _ h => (Filter.Call.binds hstem h).filled,
    fun _ _ => Query.filled_of_statement, fun _ _ => Aggregation.filled_of_statement,
    fun _ _ _ => Selection.filled_of⟩

/-- Conditions whose values and names hold marks and quotes. -/
def markedConditions : List Entry :=
  [.clause (.plain "a?'" (.compare .less) (.text "12")),
    .group .any [.clause (.contains "parent.tags" (.text "?'%")),
      .clause { Clause.equalTo "b" (.text "'?'") with negated := true }, .group .all [] true] false]

/-- The page of the nodes of a target that meet these conditions, sorted by a field. -/
def markedQuery : Query :=
  { Query.forTarget "t?" with conditions := markedConditions, orderBy := some ⟨"c?", true⟩ }

/-- The same nodes along a field. -/
def markedAggregation : Aggregation :=
  { Aggregation.along "t?" [.field "parent.tags", .field "d?"] with
    conditions := markedConditions }

/-- The marks in the names and values of the request, and in the patterns of numerals, do not
count. -/
theorem slots_filled_sample :
    (∃ f k, (Filter.Call.all markedConditions).run Filter.defaultStem 0 = (.ok f, k) ∧
      valuesOf (Condition.allPieces f.conditions)
        = [.real (.ofInt 12), .text "%?'\\%%", .text "b", .text "'?'"]) ∧
    (∃ s, markedQuery.statement = .ok s ∧ (marks s.sql).length = s.values.length ∧
      s.values = [.text "t?", .text "a?'", .real (.ofInt 12), .text "%?'\\%%", .text "b",
        .text "'?'", .text "c?", .integer 100, .integer 0]) ∧
    (∃ s, markedAggregation.statement = .ok s ∧ (marks s.sql).length = s.values.length ∧
      s.values = [.text "t?", .text "a?'", .text "d?", .real (.ofInt 12), .text "%?'\\%%",
        .text "b", .text "'?'", .integer 101]) ∧
    ∃ s, Selection.of "t?" markedConditions = .ok s ∧
      (marks s.countSql).length = s.countValues.length := by
  obtain ⟨⟨f, k⟩, hcall⟩ : ∃ r : Filter × Nat,
    (Filter.Call.all markedConditions).run Filter.defaultStem 0 = (.ok r.1, r.2) := ⟨⟨_, _⟩, rfl⟩
  obtain ⟨page, hpage⟩ : ∃ s, markedQuery.statement = .ok s := ⟨_, rfl⟩
  obtain ⟨groups, hgroups⟩ : ∃ s, markedAggregation.statement = .ok s := ⟨_, rfl⟩
  obtain ⟨total, htotal⟩ : ∃ s, Selection.of "t?" markedConditions = .ok s := ⟨_, rfl⟩
  have hfilter := (slots_filled.1 _ (by decide) _ _ _ _ hcall).2
  have hpageFilled := slots_filled.2.1 _ _ hpage
  have hgroupsFilled := slots_filled.2.2.1 _ _ hgroups
  refine ⟨⟨f, k, hcall, ?_⟩, ⟨page, hpage, hpageFilled.count, ?_⟩,
    ⟨groups, hgroups, hgroupsFilled.count, ?_⟩,
    ⟨total, htotal, (slots_filled.2.2.2 _ _ _ htotal).count⟩⟩
  · rw [hfilter.values]
    decide
  · rw [hpageFilled.values]
    decide
  · rw [hgroupsFilled.values]
    decide

end GraphIndex
