import GraphIndex.Proofs.Plan.Calls
import GraphIndex.Proofs.Plan.Dimensions
import GraphIndex.Proofs.Statement.Texts

/-!
# Requests that are written alike

The outline of a clause keeps where its field leads, the operator in force and the negation, and
forgets the value and the name of a custom field. A filter has the same texts as that of its outline
(`Entry.exists_outline`), so requests with one outline are written with the same text, whatever
names and values they hold (`sql_eq_of_alike`).
-/

namespace GraphIndex

open Piece

/-! ### Texts that do not depend on values -/

theorem text_valueCondition (e : Expr) (asText : Bool) (v v' : Operand) (op : Operator) :
    (valueCondition e asText v op).text = (valueCondition e asText v' op).text := by
  cases op with
  | compare c => exact Condition.text_compare_bound e c _ _
  | contains => exact Condition.text_like e _ _
  | present => rfl
  | missing => rfl

/-- Comparisons with a field that can be made are written alike. -/
theorem text_fieldCondition {field field' : String} {e : Expr} {v v' : Operand} {op : Operator}
    {holds holds' : Condition} (h : fieldCondition field e v op = .ok holds)
    (h' : fieldCondition field' e v' op = .ok holds') : holds.text = holds'.text := by
  rcases fieldCondition_cases h with ⟨hop, rfl⟩ | ⟨c, number, rfl, hc, -, rfl⟩
  · rw [fieldCondition_of_not_ordering hop] at h'
    obtain rfl := Except.ok.inj h'
    exact text_valueCondition e true v v' op
  · rcases fieldCondition_cases h' with ⟨hop', -⟩ | ⟨c', number', heq, -, -, rfl⟩
    · exact absurd (hop'.symm.trans hc) Bool.false_ne_true
    · obtain rfl := Operator.compare.inj heq
      refine Condition.text_group_congr .all ?_
      rw [List.map_append, List.map_append, List.map_singleton, List.map_singleton,
        Condition.text_compare_bound]

/-- A comparison with a whole number can always be made. -/
theorem exists_fieldCondition_integer (field : String) (e : Expr) (i : Int64) (op : Operator) :
    ∃ holds, fieldCondition field e (.integer i) op = .ok holds := by
  cases hop : op.isOrdering with
  | false => exact ⟨_, fieldCondition_of_not_ordering hop⟩
  | true =>
    cases op with
    | compare c => exact ⟨_, fieldCondition_of_number hop rfl⟩
    | contains => exact absurd hop Bool.false_ne_true
    | present => exact absurd hop Bool.false_ne_true
    | missing => exact absurd hop Bool.false_ne_true

theorem texts_pair (c : Condition) {d d' : Condition} (h : d.text = d'.text) :
    [c, d].map Condition.text = [c, d'].map Condition.text :=
  congrArg (fun s => [c.text, s]) h

theorem head_fieldJoin (a : Alias) (field field' : String) :
    (fieldJoin a field).head = (fieldJoin a field').head := rfl

theorem head_tagJoin (tag tag' : String) : (tagJoin tag).head = (tagJoin tag').head := rfl

theorem texts_ofField (a : Alias) (field field' : String) :
    (ofField a field).map Condition.text = (ofField a field').map Condition.text := rfl

/-! ### Filters with the same texts -/

namespace Filter

/-- Joins and conditions of two filters have the same texts. -/
structure SameText (f g : Filter) : Prop where
  joins : f.joins.SameText g.joins
  conditions : f.conditions.map Condition.text = g.conditions.map Condition.text

namespace SameText

variable {f f' g g' : Filter}

theorem refl (f : Filter) : f.SameText f := ⟨rfl, rfl⟩

theorem symm (h : f.SameText g) : g.SameText f := ⟨h.joins.symm, h.conditions.symm⟩

theorem trans {k : Filter} (h : f.SameText g) (h' : g.SameText k) : f.SameText k :=
  ⟨Eq.trans h.joins h'.joins, h.conditions.trans h'.conditions⟩

theorem and (h : f.SameText f') (h' : g.SameText g') : (f.and g).SameText (f'.and g') where
  joins := JoinSet.insertAll_congr h.joins h'.joins
  conditions := by
    show (f.conditions ++ g.conditions).map _ = (f'.conditions ++ g'.conditions).map _
    rw [List.map_append, List.map_append, h.conditions, h'.conditions]

theorem negated (h : f.SameText g) : f.negated.SameText g.negated where
  joins := h.joins
  conditions := Condition.texts_not_congr h.conditions

theorem grouped (kind : Connective) (h : f.SameText g) :
    (f.grouped kind).SameText (g.grouped kind) := by
  have hempty : f.conditions.isEmpty = g.conditions.isEmpty := by
    have hmap := congrArg List.isEmpty h.conditions
    rw [List.isEmpty_map, List.isEmpty_map] at hmap
    exact hmap
  unfold Filter.grouped
  rw [hempty]
  split
  · exact h
  · exact ⟨h.joins, congrArg (fun s => [s]) (Condition.text_group_congr kind h.conditions)⟩

theorem all {fs gs : List Filter} (h : List.Forall₂ SameText fs gs) :
    (Filter.all fs).SameText (Filter.all gs) := by
  have hfold : ∀ {fs gs : List Filter}, List.Forall₂ SameText fs gs → ∀ {f g : Filter},
      f.SameText g → (fs.foldl Filter.and f).SameText (gs.foldl Filter.and g) := by
    intro fs gs h
    induction h with
    | nil => exact fun h => h
    | cons hhead _ ih => exact fun h => ih (h.and hhead)
  exact hfold h (refl none)

/-- Filters of one condition and joins that are written alike. -/
theorem of {condition condition' : Condition} {js js' : List Join}
    (hcondition : condition.text = condition'.text)
    (hjoins : js.map Join.head = js'.map Join.head) :
    (Filter.of condition js).SameText (Filter.of condition' js') where
  joins := JoinSet.insertAll_congr rfl hjoins
  conditions := congrArg (fun s => [s]) hcondition

end SameText

end Filter

/-! ### Outlines of clauses -/

namespace Route

/-- A route without the name of a custom field. -/
def outline : Route → Route
  | custom _ => custom "x"
  | route => route

/-- A field name that leads along the outline of a route. -/
def outlineField : Route → String
  | column k => k.fieldName
  | parentName => "parent.name"
  | parentTags => "parent.tags"
  | custom _ => "x"

/-- A field name that leads along the outline of the route of a field, or nowhere if the field
does. -/
def outlineName (field : String) : String :=
  match ofField field with
  | .ok route => route.outlineField
  | .error _ => "parent."

theorem ofField_outlineField (r : Route) : ofField r.outlineField = .ok r.outline := by
  cases r with
  | column k => cases k <;> rfl
  | parentName => rfl
  | parentTags => rfl
  | custom field =>
    have hroute : ofField "x" = .ok (custom "x") := rfl
    exact hroute

end Route

namespace Clause

/-- A clause without its value and without the name of a custom field. -/
def outline (c : Clause) : Clause :=
  ⟨Route.outlineName c.field, c.effectiveOperator, .integer 0, c.negated⟩

/-- A whole number is no truth value, so it changes no operator. -/
theorem effectiveOperator_integer (field : String) (op : Operator) (i : Int64) (negated : Bool) :
    effectiveOperator ⟨field, op, .integer i, negated⟩ = op := by
  cases op <;> rfl

variable {stem : String} {c : Clause} {nested : Bool} {n k : Nat} {f : Filter}

/-- The outline of a clause leads along the outline of its route and keeps its operator. -/
theorem outline_of_ofField {route : Route} (hroute : Route.ofField c.field = .ok route) :
    Route.ofField c.outline.field = .ok route.outline ∧
      c.outline.effectiveOperator = c.effectiveOperator := by
  have hname : Route.outlineName c.field = route.outlineField := by
    rw [Route.outlineName, hroute]
  refine ⟨?_, effectiveOperator_integer _ _ _ _⟩
  rw [outline, hname]
  exact route.ofField_outlineField

theorem text_valueCondition_outline {e : Expr} {asText : Bool} {route : Route}
    (hroute : Route.ofField c.field = .ok route) :
    (valueCondition e asText c.value c.effectiveOperator).text
      = (valueCondition e asText c.outline.value c.outline.effectiveOperator).text := by
  rw [(outline_of_ofField hroute).2]
  exact text_valueCondition _ _ _ _ _

theorem exists_fieldCondition_outline {field : String} {e : Expr} {holds : Condition}
    (hholds : fieldCondition field e c.value c.effectiveOperator = .ok holds) :
    ∃ holds', fieldCondition "x" e c.outline.value c.effectiveOperator = .ok holds' ∧
      holds.text = holds'.text := by
  obtain ⟨holds', hholds'⟩ := exists_fieldCondition_integer "x" e 0 c.effectiveOperator
  exact ⟨holds', hholds', text_fieldCondition hholds hholds'⟩

/-- A clause turns into what its outline turns into, but for values and names. -/
theorem Becomes.exists_outline (h : c.Becomes stem nested n f k) :
    ∃ g, c.outline.Becomes stem nested n g k ∧ f.SameText g := by
  cases h with
  | column k hroute =>
    obtain ⟨hroute', hop'⟩ := outline_of_ofField hroute
    exact ⟨_, .column k hroute', .of (text_valueCondition_outline hroute) rfl⟩
  | parentName hroute hjoined =>
    obtain ⟨hroute', hop'⟩ := outline_of_ofField hroute
    refine ⟨_, .parentName hroute' ?_, .of (text_valueCondition_outline hroute) rfl⟩
    rw [hop']
    exact hjoined
  | nestedParentName hroute hop =>
    obtain ⟨hroute', hop'⟩ := outline_of_ofField hroute
    exact ⟨_, .nestedParentName hroute' (hop'.symm ▸ hop),
      .of (Condition.text_exists_congr true _
        (texts_pair _ (text_valueCondition_outline hroute))) rfl⟩
  | parentTagPresence hroute hop =>
    obtain ⟨hroute', hop'⟩ := outline_of_ofField hroute
    refine ⟨_, .parentTagPresence hroute' (hop'.symm ▸ hop), ?_⟩
    rw [hop']
    exact .refl _
  | parentTag hroute hop hordering =>
    obtain ⟨hroute', hop'⟩ := outline_of_ofField hroute
    exact ⟨_, .parentTag hroute' (hop'.symm ▸ hop) (hop'.symm ▸ hordering),
      .of (text_valueCondition_outline hroute) rfl⟩
  | nestedParentTag hroute hop hordering =>
    obtain ⟨hroute', hop'⟩ := outline_of_ofField hroute
    exact ⟨_, .nestedParentTag hroute' (hop'.symm ▸ hop) (hop'.symm ▸ hordering),
      .of (Condition.text_exists_congr true _
        (texts_pair _ (text_valueCondition_outline hroute))) rfl⟩
  | fieldPresence field hroute hop =>
    obtain ⟨hroute', hop'⟩ := outline_of_ofField hroute
    refine ⟨_, .fieldPresence "x" hroute' (hop'.symm ▸ hop), ?_⟩
    rw [hop']
    refine .of (Condition.text_exists_congr _ _ ?_) rfl
    rw [List.map_append, List.map_append, texts_ofField _ field "x"]
  | field field holds hroute hop hholds =>
    obtain ⟨hroute', hop'⟩ := outline_of_ofField hroute
    obtain ⟨holds', hholds', htext⟩ := exists_fieldCondition_outline hholds
    refine ⟨_, .field "x" holds' hroute' (hop'.symm ▸ hop) (hop'.symm ▸ hholds'), .of htext ?_⟩
    rw [List.map_singleton, List.map_singleton, head_fieldJoin _ field "x"]
  | nestedField field holds hroute hop hholds =>
    obtain ⟨hroute', hop'⟩ := outline_of_ofField hroute
    obtain ⟨holds', hholds', htext⟩ := exists_fieldCondition_outline hholds
    refine ⟨_, .nestedField "x" holds' hroute' (hop'.symm ▸ hop) (hop'.symm ▸ hholds'), ?_⟩
    refine .of (Condition.text_exists_congr true _ ?_) rfl
    rw [List.map_append, List.map_append, texts_ofField _ field "x", List.map_singleton,
      List.map_singleton, htext]

end Clause

/-! ### Outlines of entries -/

namespace Entry

mutual

/-- An entry without values and without names of custom fields. -/
def outline : Entry → Entry
  | clause c => clause c.outline
  | group kind members negated => group kind (outlineAll members) negated

/-- The outlines of entries. -/
def outlineAll : List Entry → List Entry
  | [] => []
  | e :: rest => e.outline :: outlineAll rest

end

variable {stem : String}

theorem exists_outlineAll {es : List Entry} {nested : Bool}
    (hes : ∀ e ∈ es, ∀ {n k f}, Yields (e.filter stem nested) n f k →
      ∃ g, Yields (e.outline.filter stem nested) n g k ∧ f.SameText g)
    {n k : Nat} {fs : List Filter} (h : Yields (filters stem nested es) n fs k) :
    ∃ gs, Yields (filters stem nested (outlineAll es)) n gs k ∧
      List.Forall₂ Filter.SameText fs gs := by
  induction es generalizing n fs with
  | nil =>
    obtain ⟨rfl, rfl⟩ := yields_nil h
    exact ⟨[], h, .nil⟩
  | cons e es ih =>
    obtain ⟨f, fs, i, hf, hfs, rfl⟩ := yields_cons h
    rw [List.forall_mem_cons] at hes
    obtain ⟨g, hg, hsame⟩ := hes.1 hf
    obtain ⟨gs, hgs, hrest⟩ := ih hes.2 hfs
    refine ⟨g :: gs, ?_, .cons hsame hrest⟩
    rw [outlineAll, filters]
    exact yields_bind.mpr ⟨g, i, hg, yields_bind.mpr ⟨gs, k, hgs, yields_pure.mpr ⟨rfl, rfl⟩⟩⟩

/-- **An entry turns into what its outline turns into**, but for values and names; it takes the same
numbers. -/
theorem exists_outline (e : Entry) : ∀ {nested : Bool} {n k : Nat} {f : Filter},
    Yields (e.filter stem nested) n f k →
      ∃ g, Yields (e.outline.filter stem nested) n g k ∧ f.SameText g := by
  induction e using Entry.induction with
  | clause c =>
    intro nested n k f h
    obtain ⟨f', hf', rfl⟩ := yields_clause h
    obtain ⟨g', hg', hsame⟩ := hf'.exists_outline
    have hnegated : c.outline.negated = c.negated := rfl
    refine ⟨if c.negated then g'.negated else g', ?_, ?_⟩
    · rw [outline, filter, Clause.filter, hnegated]
      exact yields_bind.mpr ⟨g', k, hg'.yields, yields_pure.mpr ⟨rfl, rfl⟩⟩
    · split
      · exact hsame.negated
      · exact hsame
  | group kind members negated ih =>
    intro nested n k f h
    obtain ⟨fs, hfs, rfl⟩ := yields_group h
    obtain ⟨gs, hgs, hsame⟩ := exists_outlineAll (fun e he => ih e he) hfs
    have hall := (Filter.SameText.all hsame).grouped kind
    refine ⟨if negated then ((Filter.all gs).grouped kind).negated
      else (Filter.all gs).grouped kind, ?_, ?_⟩
    · rw [outline, filter]
      exact yields_bind.mpr ⟨gs, k, hgs, yields_pure.mpr ⟨rfl, rfl⟩⟩
    · split
      · exact hall.negated
      · exact hall

end Entry

/-- Entries with one outline become filters that are written alike. -/
theorem Filter.sameText_of_outlineAll {es es' : List Entry} {f f' : Filter}
    (h : Entry.outlineAll es = Entry.outlineAll es') (hf : ofEntries es = .ok f)
    (hf' : ofEntries es' = .ok f') : f.SameText f' := by
  have houtline : ∀ {es : List Entry} {f : Filter}, ofEntries es = .ok f →
      ∃ g, ofEntries (Entry.outlineAll es) = .ok g ∧ f.SameText g := by
    intro es f hf
    obtain ⟨fs, k, hfs, rfl⟩ := yields_of_ofEntries hf
    obtain ⟨gs, hgs, hsame⟩ := Entry.exists_outlineAll (fun e _ => e.exists_outline) hfs
    exact ⟨all gs, ofEntries_of_yields hgs, .all hsame⟩
  obtain ⟨g, hg, hsame⟩ := houtline hf
  obtain ⟨g', hg', hsame'⟩ := houtline hf'
  rw [h, hg'] at hg
  obtain rfl := Except.ok.inj hg
  exact hsame.trans hsame'.symm

/-! ### Requests of one shape -/

/-- Two field names lead to the same column, to the same attribute of the parent, or both to a
custom field. -/
def SameRoute (field field' : String) : Prop :=
  (Route.ofField field).map Route.outline = (Route.ofField field').map Route.outline

/-- Two clauses agree on the operator, the negation and the route of their fields, and tests for
presence on the truth value that is asked for. -/
structure Clause.Alike (c c' : Clause) : Prop where
  operator : c.operator = c'.operator
  negated : c.negated = c'.negated
  route : SameRoute c.field c'.field
  asBool : c.operator.isExistenceTest = true → c.value.asBool? = c'.value.asBool?

namespace Entry

mutual

/-- Two entries have the same shape and alike clauses. -/
def Alike : Entry → Entry → Prop
  | clause c, clause c' => c.Alike c'
  | group kind members negated, group kind' members' negated' =>
    kind = kind' ∧ negated = negated' ∧ AllAlike members members'
  | _, _ => False

/-- Entries are alike one by one. -/
def AllAlike : List Entry → List Entry → Prop
  | [], [] => True
  | e :: rest, e' :: rest' => e.Alike e' ∧ AllAlike rest rest'
  | _, _ => False

end

end Entry

theorem SameRoute.outlineName_eq {field field' : String} (h : SameRoute field field') :
    Route.outlineName field = Route.outlineName field' := by
  have houtline : ∀ r : Route, r.outline.outlineField = r.outlineField := by
    intro r
    cases r <;> rfl
  unfold SameRoute at h
  unfold Route.outlineName
  cases hroute : Route.ofField field with
  | error fault =>
    cases hroute' : Route.ofField field' with
    | error fault' => rfl
    | ok route' =>
      rw [hroute, hroute'] at h
      exact absurd h (by rintro ⟨⟩)
  | ok route =>
    cases hroute' : Route.ofField field' with
    | error fault' =>
      rw [hroute, hroute'] at h
      exact absurd h (by rintro ⟨⟩)
    | ok route' =>
      rw [hroute, hroute'] at h
      show route.outlineField = route'.outlineField
      rw [← houtline route, ← houtline route', Except.ok.inj h]

theorem Clause.Alike.outline_eq {c c' : Clause} (h : c.Alike c') : c.outline = c'.outline := by
  have hop : c.effectiveOperator = c'.effectiveOperator := by
    have hasBool := h.asBool
    unfold effectiveOperator
    rw [← h.operator]
    cases hoperator : c.operator with
    | compare _ => rfl
    | contains => rfl
    | present => rw [hoperator] at hasBool; rw [hasBool rfl]
    | missing => rw [hoperator] at hasBool; rw [hasBool rfl]
  unfold outline
  rw [h.route.outlineName_eq, hop, h.negated]

namespace Entry

theorem outlineAll_eq {es : List Entry}
    (hes : ∀ e ∈ es, ∀ e', e.Alike e' → e.outline = e'.outline) :
    ∀ {es' : List Entry}, AllAlike es es' → outlineAll es = outlineAll es' := by
  induction es with
  | nil =>
    intro es' h
    cases es' with
    | nil => rfl
    | cons e' es' => exact absurd h id
  | cons e es ih =>
    intro es' h
    rw [List.forall_mem_cons] at hes
    cases es' with
    | nil => exact absurd h id
    | cons e' es' => rw [outlineAll, outlineAll, hes.1 e' h.1, ih hes.2 h.2]

/-- Alike entries have one outline. -/
theorem outline_eq (e : Entry) : ∀ e', e.Alike e' → e.outline = e'.outline := by
  induction e using Entry.induction with
  | clause c =>
    intro e' h
    cases e' with
    | clause c' => exact congrArg clause (Clause.Alike.outline_eq h)
    | group _ _ _ => exact absurd h id
  | group kind members negated ih =>
    intro e' h
    cases e' with
    | clause c' => exact absurd h id
    | group kind' members' negated' =>
      obtain ⟨rfl, rfl, hmembers⟩ := h
      rw [outline, outline, outlineAll_eq ih hmembers]

end Entry

/-! ### Statements of one shape -/

namespace Selection

/-- Alike conditions of the same kind of target become selections that are written alike. -/
theorem sameText_of {find find' : String} {es es' : List Entry} {s s' : Selection}
    (hfind : targetsAllNodes find = targetsAllNodes find') (hes : Entry.AllAlike es es')
    (h : Selection.of find es = .ok s) (h' : Selection.of find' es' = .ok s') : s.SameText s' := by
  obtain ⟨f, hf, rfl⟩ := Selection.of_eq_ok_iff.mp h
  obtain ⟨f', hf', rfl⟩ := Selection.of_eq_ok_iff.mp h'
  have houtline := Entry.outlineAll_eq (fun e _ => e.outline_eq) hes
  have hsame : f.SameText f' := Filter.sameText_of_outlineAll houtline hf hf'
  have htarget : (targetJoins find).SameText (targetJoins find') := by
    unfold JoinSet.SameText
    rw [joins_targetJoins, joins_targetJoins, hfind]
    split
    · rfl
    · exact congrArg (fun p => [p]) (head_tagJoin find find')
  exact ⟨JoinSet.insertAll_congr htarget hsame.joins, hsame.conditions⟩

end Selection

theorem Route.ofField_outlineName {field : String} {route : Route} (h : ofField field = .ok route) :
    ofField (outlineName field) = .ok route.outline := by
  rw [outlineName, h]
  exact route.ofField_outlineField

/-- A sort key is written like that of the outline of its field. -/
theorem SortTerm.exists_outline {field : String} {t : SortTerm}
    (h : SortTerm.ofField field = .ok t) :
    ∃ t₀, SortTerm.ofField (Route.outlineName field) = .ok t₀ ∧
      textOf t.pieces = textOf t₀.pieces := by
  unfold SortTerm.ofField at h ⊢
  cases hroute : Route.ofField field with
  | error fault =>
    rw [hroute] at h
    exact absurd h (by rintro ⟨⟩)
  | ok route =>
    rw [hroute] at h
    rw [Route.ofField_outlineName hroute]
    cases route with
    | column c => exact ⟨t, h, rfl⟩
    | parentName => exact ⟨t, h, rfl⟩
    | parentTags => exact absurd h (by rintro ⟨⟩)
    | custom name =>
      obtain rfl := Except.ok.inj h
      exact ⟨.field "x", rfl, rfl⟩

/-- Sort keys of one route are written alike. -/
theorem SortTerm.textOf_eq {field field' : String} {t t' : SortTerm}
    (hroute : SameRoute field field') (h : SortTerm.ofField field = .ok t)
    (h' : SortTerm.ofField field' = .ok t') : textOf t.pieces = textOf t'.pieces := by
  obtain ⟨t₀, h₀, heq⟩ := SortTerm.exists_outline h
  obtain ⟨t₀', h₀', heq'⟩ := SortTerm.exists_outline h'
  rw [hroute.outlineName_eq, h₀'] at h₀
  rw [heq, heq', Except.ok.inj h₀]

namespace Dimension

/-- Two dimensions are the same period of the same column, or fields of one route. -/
def Alike : Dimension → Dimension → Prop
  | period p c, period p' c' => p = p' ∧ c = c'
  | field name, field name' => SameRoute name name'
  | _, _ => False

/-- A dimension without the name of a custom field. -/
def outline : Dimension → Dimension
  | period p c => period p c
  | field name => field (Route.outlineName name)

theorem Alike.outline_eq {d d' : Dimension} (h : d.Alike d') : d.outline = d'.outline := by
  cases d with
  | period p c =>
    cases d' with
    | period p' c' => rw [h.1, h.2]
    | field name' => exact absurd h id
  | field name =>
    cases d' with
    | period p' c' => exact absurd h id
    | field name' => exact congrArg field (SameRoute.outlineName_eq h)

end Dimension

/-- The expressions and the joins of two keys have the same texts. -/
structure GroupKey.SameText (key key' : GroupKey) : Prop where
  expr : textOf key.expr.pieces = textOf key'.expr.pieces
  joins : key.joins.map Join.head = key'.joins.map Join.head

namespace Dimension

/-- The key of a dimension is written like that of its outline. -/
theorem exists_outline {place : Nat} {d : Dimension} {key : GroupKey} (h : d.key place = .ok key) :
    ∃ key₀, d.outline.key place = .ok key₀ ∧ key.SameText key₀ := by
  cases d with
  | period p c => exact ⟨key, h, rfl, rfl⟩
  | field name =>
    simp only [Dimension.key] at h
    simp only [outline, Dimension.key]
    cases hroute : Route.ofField name with
    | error fault =>
      rw [hroute] at h
      exact absurd h (by rintro ⟨⟩)
    | ok route =>
      rw [hroute] at h
      rw [Route.ofField_outlineName hroute]
      cases route with
      | column c => exact ⟨key, h, rfl, rfl⟩
      | parentName => exact ⟨key, h, rfl, rfl⟩
      | parentTags => exact ⟨key, h, rfl, rfl⟩
      | custom own =>
        obtain rfl := Except.ok.inj h
        exact ⟨_, rfl, rfl, congrArg (fun p => [p]) (head_fieldJoin _ own "x")⟩

theorem exists_outlines {place : Nat} {ds : List Dimension} {keys : List GroupKey}
    (h : Dimension.keys place ds = .ok keys) :
    ∃ keys₀, Dimension.keys place (ds.map outline) = .ok keys₀ ∧
      List.Forall₂ GroupKey.SameText keys keys₀ := by
  induction ds generalizing place keys with
  | nil =>
    obtain rfl := Except.ok.inj h
    exact ⟨[], rfl, .nil⟩
  | cons d ds ih =>
    simp only [Dimension.keys, bind_eq_ok_iff] at h
    obtain ⟨key, hkey, rest, hrest, hpure⟩ := h
    obtain rfl := Except.ok.inj hpure
    obtain ⟨key₀, hkey₀, hsame⟩ := exists_outline hkey
    obtain ⟨rest₀, hrest₀, hsames⟩ := ih hrest
    refine ⟨key₀ :: rest₀, ?_, .cons hsame hsames⟩
    simp only [List.map_cons, Dimension.keys, hkey₀, hrest₀]
    rfl

theorem outlines_eq {ds ds' : List Dimension} (h : List.Forall₂ Alike ds ds') :
    ds.map outline = ds'.map outline := by
  induction h with
  | nil => rfl
  | cons hhead _ ih => rw [List.map_cons, List.map_cons, hhead.outline_eq, ih]

/-- Alike dimensions have keys that are written alike. -/
theorem sameText_keys {place : Nat} {ds ds' : List Dimension} {keys keys' : List GroupKey}
    (h : List.Forall₂ Alike ds ds') (hkeys : Dimension.keys place ds = .ok keys)
    (hkeys' : Dimension.keys place ds' = .ok keys') :
    (keys.map fun key => textOf key.expr.pieces) = (keys'.map fun key => textOf key.expr.pieces) ∧
    (keys.flatMap GroupKey.joins).map Join.head = (keys'.flatMap GroupKey.joins).map Join.head := by
  have hsame : ∀ {ks ks₀ : List GroupKey}, List.Forall₂ GroupKey.SameText ks ks₀ →
      (ks.map fun key => textOf key.expr.pieces) = (ks₀.map fun key => textOf key.expr.pieces) ∧
      (ks.flatMap GroupKey.joins).map Join.head = (ks₀.flatMap GroupKey.joins).map Join.head := by
    intro ks ks₀ h
    induction h with
    | nil => exact ⟨rfl, rfl⟩
    | cons hhead _ ih =>
      rw [List.map_cons, List.map_cons, List.flatMap_cons, List.flatMap_cons, List.map_append,
        List.map_append, hhead.expr, hhead.joins, ih.1, ih.2]
      exact ⟨rfl, rfl⟩
  obtain ⟨keys₀, hkeys₀, hsames⟩ := exists_outlines hkeys
  obtain ⟨keys₀', hkeys₀', hsames'⟩ := exists_outlines hkeys'
  rw [outlines_eq h, hkeys₀'] at hkeys₀
  obtain rfl := Except.ok.inj hkeys₀
  exact ⟨(hsame hsames).1.trans (hsame hsames').1.symm,
    (hsame hsames).2.trans (hsame hsames').2.symm⟩

end Dimension

/-- Two queries ask for the same kind of target, with alike conditions and alike orders. -/
structure Query.Alike (q q' : Query) : Prop where
  find : targetsAllNodes q.find = targetsAllNodes q'.find
  conditions : Entry.AllAlike q.conditions q'.conditions
  descending : q.sortKey.descending = q'.sortKey.descending
  route : SameRoute q.sortKey.field q'.sortKey.field

/-- Two aggregations ask for the same kind of target, with alike conditions and alike dimensions. -/
structure Aggregation.Alike (a a' : Aggregation) : Prop where
  find : targetsAllNodes a.find = targetsAllNodes a'.find
  conditions : Entry.AllAlike a.conditions a'.conditions
  dimensions : List.Forall₂ Dimension.Alike a.dimensions a'.dimensions

theorem Query.Alike.sql_eq {q q' : Query} {s s' : PageStatement} (halike : q.Alike q')
    (h : q.statement = .ok s) (h' : q'.statement = .ok s') : s.sql = s'.sql := by
  simp only [Query.statement, bind_eq_ok_iff] at h h'
  obtain ⟨selection, hselection, term, hterm, hpure⟩ := h
  obtain ⟨selection', hselection', term', hterm', hpure'⟩ := h'
  obtain rfl := Except.ok.inj hpure
  obtain rfl := Except.ok.inj hpure'
  exact PageStatement.sql_congr
    (Selection.sameText_of halike.find halike.conditions hselection hselection')
    (SortTerm.textOf_eq halike.route hterm hterm') halike.descending

theorem Aggregation.Alike.sql_eq {a a' : Aggregation} {s s' : GroupStatement} (halike : a.Alike a')
    (h : a.statement = .ok s) (h' : a'.statement = .ok s') : s.sql = s'.sql := by
  simp only [Aggregation.statement, bind_eq_ok_iff] at h h'
  obtain ⟨selection, hselection, keys, hkeys, hpure⟩ := h
  obtain ⟨selection', hselection', keys', hkeys', hpure'⟩ := h'
  obtain rfl := Except.ok.inj hpure
  obtain rfl := Except.ok.inj hpure'
  have hsame := Selection.sameText_of halike.find halike.conditions hselection hselection'
  obtain ⟨hexprs, hjoins⟩ := Dimension.sameText_keys halike.dimensions hkeys hkeys'
  refine GroupStatement.sql_congr ⟨JoinSet.insertAll_congr hsame.joins hjoins, hsame.conditions⟩ ?_
  rw [List.map_map, List.map_map]
  exact hexprs

/-- **The text of a statement does not depend on names and values**: requests of one shape, whose
fields lead along the same routes, are written with the same text, as far as statements can be made
of them. -/
theorem sql_eq_of_alike :
    (∀ (q q' : Query) (s s' : PageStatement), q.Alike q' → q.statement = .ok s →
      q'.statement = .ok s' → s.sql = s'.sql) ∧
    (∀ (a a' : Aggregation) (s s' : GroupStatement), a.Alike a' → a.statement = .ok s →
      a'.statement = .ok s' → s.sql = s'.sql) ∧
    ∀ (find find' : String) (es es' : List Entry) (s s' : Selection),
      targetsAllNodes find = targetsAllNodes find' → Entry.AllAlike es es' →
      Selection.of find es = .ok s → Selection.of find' es' = .ok s' →
      s.countSql = s'.countSql :=
  ⟨fun _ _ _ _ halike h h' => halike.sql_eq h h', fun _ _ _ _ halike h h' => halike.sql_eq h h',
    fun _ _ _ _ _ _ hfind hes h h' =>
      Selection.countSql_congr (Selection.sameText_of hfind hes h h')⟩

/-- Three conditions, with names and values that can be chosen. -/
def shapedConditions (field text tag : String) : List Entry :=
  [.clause (.plain field (.compare .equal) (.text text)),
    .group .any [.clause (.contains "parent.tags" (.text tag)),
      .clause { Clause.plain field .missing (.text "FALSE") with negated := true }] true]

/-- A page of the nodes with a tag that meet such conditions, sorted by a field. -/
def shapedQuery (field text tag : String) : Query :=
  { Query.forTarget tag with
    conditions := shapedConditions field text tag
    orderBy := some ⟨field, false⟩ }

/-- The groups of these nodes along a field. -/
def shapedAggregation (field text tag : String) : Aggregation :=
  { Aggregation.along tag [.field field] with conditions := shapedConditions field text tag }

/-- Names and values that hold quotes and marks change nothing in the text. -/
theorem sql_eq_of_alike_sample :
    (∃ s s', (shapedQuery "status" "open" "task").statement = .ok s ∧
      (shapedQuery "x' OR ?" "'; DROP" "a' --").statement = .ok s' ∧ s.sql = s'.sql) ∧
    (∃ s s', (shapedAggregation "status" "open" "task").statement = .ok s ∧
      (shapedAggregation "x' OR ?" "'; DROP" "a' --").statement = .ok s' ∧ s.sql = s'.sql) ∧
    ∃ s s', Selection.of "task" (shapedConditions "status" "open" "task") = .ok s ∧
      Selection.of "a' --" (shapedConditions "x' OR ?" "'; DROP" "a' --") = .ok s' ∧
      s.countSql = s'.countSql := by
  have hroute : SameRoute "status" "x' OR ?" := rfl
  have hconditions : Entry.AllAlike (shapedConditions "status" "open" "task")
      (shapedConditions "x' OR ?" "'; DROP" "a' --") := by
    refine ⟨⟨rfl, rfl, hroute, fun h => absurd h Bool.false_ne_true⟩, ⟨rfl, rfl, ?_⟩, trivial⟩
    exact ⟨⟨rfl, rfl, rfl, fun h => absurd h Bool.false_ne_true⟩, ⟨rfl, rfl, hroute, fun _ => rfl⟩,
      trivial⟩
  obtain ⟨page, hpage⟩ : ∃ s, (shapedQuery "status" "open" "task").statement = .ok s := ⟨_, rfl⟩
  obtain ⟨page', hpage'⟩ : ∃ s, (shapedQuery "x' OR ?" "'; DROP" "a' --").statement = .ok s :=
    ⟨_, rfl⟩
  obtain ⟨groups, hgroups⟩ : ∃ s, (shapedAggregation "status" "open" "task").statement = .ok s :=
    ⟨_, rfl⟩
  obtain ⟨groups', hgroups'⟩ : ∃ s,
    (shapedAggregation "x' OR ?" "'; DROP" "a' --").statement = .ok s := ⟨_, rfl⟩
  obtain ⟨total, htotal⟩ : ∃ s,
    Selection.of "task" (shapedConditions "status" "open" "task") = .ok s := ⟨_, rfl⟩
  obtain ⟨total', htotal'⟩ : ∃ s,
    Selection.of "a' --" (shapedConditions "x' OR ?" "'; DROP" "a' --") = .ok s := ⟨_, rfl⟩
  have hfind : targetsAllNodes "task" = targetsAllNodes "a' --" := rfl
  have hquery : (shapedQuery "status" "open" "task").Alike
      (shapedQuery "x' OR ?" "'; DROP" "a' --") := ⟨rfl, hconditions, rfl, hroute⟩
  have haggregation : (shapedAggregation "status" "open" "task").Alike
      (shapedAggregation "x' OR ?" "'; DROP" "a' --") := ⟨rfl, hconditions, .cons hroute .nil⟩
  exact ⟨⟨page, page', hpage, hpage', sql_eq_of_alike.1 _ _ _ _ hquery hpage hpage'⟩,
    ⟨groups, groups', hgroups, hgroups', sql_eq_of_alike.2.1 _ _ _ _ haggregation hgroups hgroups'⟩,
    total, total', htotal, htotal',
    sql_eq_of_alike.2.2 _ _ _ _ _ _ hfind hconditions htotal htotal'⟩

end GraphIndex
