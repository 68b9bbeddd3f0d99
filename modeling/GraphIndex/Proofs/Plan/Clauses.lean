import GraphIndex.Proofs.Plan.Filters
import GraphIndex.Proofs.Plan.Partners

/-!
# What the filters of clauses say of a node

Every filter that a clause can turn into means the truth of the clause: below a negation exactly
(`Clause.Becomes.exact`), elsewhere by some picked row (`Clause.Becomes.means`). The two forms see
the tags of a parent along different paths, so the truth below a negation is that for
`Store.nestedView`.
-/

namespace GraphIndex

/-- What conditions below a negation see of a node: the tags under the id of its parent, whether
this is the id of a stored node or not. -/
def Store.nestedView (store : Store) (r : NodeRow) : NodeView :=
  { store.view r with parentTags := store.tagsOf r.parentId }

variable {store : Store} {r : NodeRow} {σ : Scope}

/-! ### Columns of texts -/

theorem NodeRow.cell_of_text (r : NodeRow) {k : NodeColumn}
    (h : (Column.node k).affinity = .text) : ∃ t, r.cell k = .ofText? t := by
  cases k with
  | id => exact ⟨r.id, rfl⟩
  | name => exact ⟨r.name, rfl⟩
  | parentId => exact ⟨r.parentId, rfl⟩
  | nodeType => exact ⟨r.nodeType, rfl⟩
  | created => exact absurd h (by decide)
  | updated => exact absurd h (by decide)
  | doneAt => exact absurd h (by decide)

theorem Row.cell_of_text (row : Row) {col : Column} (h : col.affinity = .text) :
    ∃ t, row.cell col = .ofText? t := by
  cases row with
  | node r =>
    cases col with
    | node k => exact r.cell_of_text h
    | _ => exact ⟨none, rfl⟩
  | tag t =>
    cases col with
    | tagNode => exact ⟨some t.node, rfl⟩
    | tagName => exact ⟨some t.tag, rfl⟩
    | _ => exact ⟨none, rfl⟩
  | field f =>
    cases col with
    | fieldNode => exact ⟨some f.node, rfl⟩
    | fieldName => exact ⟨some f.field, rfl⟩
    | fieldValue => exact ⟨f.value, rfl⟩
    | fieldOrder => exact absurd h (by decide)
    | _ => exact ⟨none, rfl⟩
  | missing => exact ⟨none, by cases col <;> rfl⟩

theorem any_fieldRows (id : Option String) (field : String) (p : String → Bool) :
    ((store.fields.filter fun f => id == some f.node && f.field == field).map Row.field).any
        (fun row => (row.cell .fieldValue).toText?.any p)
      = (store.valuesOf id field).any p := by
  rw [Store.valuesOf, List.any_map, List.any_filterMap]
  congr 1
  funext f
  show ((Datum.ofText? f.value).toText?.any p) = _
  cases f.value <;> rfl

theorem any_tagRows (id : Option String) (p : String → Bool) :
    ((store.tags.filter fun t => id == some t.node).map Row.tag).any
        (fun row => (row.cell .tagName).toText?.any p)
      = (store.tagsOf id).any p := by
  rw [Store.tagsOf, List.any_map, List.any_map]
  rfl

/-! ### Filters of one condition -/

namespace Filter

/-- Only whether a condition is true counts. -/
theorem Means.congr_singleton {f : Filter} {t u : Option Bool} (h : f.Means store r [t])
    (htu : t = some true ↔ u = some true) : f.Means store r [u] where
  sound := by
    intro σ hnode hfits
    obtain ⟨a, as, hhead, htail, heq⟩ := List.forall₂_cons_right_iff.mp (h.sound σ hnode hfits)
    rw [heq]
    exact List.Forall₂.cons (fun ha => htu.mp (hhead ha)) htail
  attained := by
    obtain ⟨rows, hrows⟩ := h.attained
    refine ⟨rows, fun σ hσ hpicks => ?_⟩
    obtain ⟨hfits, hforall⟩ := hrows σ hσ hpicks
    obtain ⟨a, as, hhead, htail, heq⟩ := List.forall₂_cons_left_iff.mp hforall
    rw [heq]
    exact ⟨hfits, List.Forall₂.cons (fun hu => hhead (htu.mpr hu)) htail⟩

theorem exact_of {c : Condition} {t : Option Bool}
    (h : ∀ σ : Scope, σ.row .node = .node r → c.truth store σ = t) :
    (Filter.of c []).Exact store r [t] where
  joins := fun _ hj => absurd hj List.not_mem_nil
  truths := by
    intro σ hσ
    show [c.truth store σ] = [t]
    rw [h σ hσ.node]

/-- A filter of a condition on the parent. -/
theorem exact_of_parentJoin {c : Condition} {t : Option Bool}
    (h : ∀ σ : Scope, σ.row .node = .node r → parentJoin.Fits store σ → c.truth store σ = t) :
    (Filter.of c [parentJoin]).Exact store r [t] := by
  have hjoins : (Filter.of c [parentJoin]).joins.joins = [parentJoin] :=
    JoinSet.joins_ofList (List.nodup_singleton _)
  constructor
  · intro j hj
    rw [hjoins] at hj
    exact List.mem_singleton.mp hj
  · intro σ hσ
    have hparent := hσ.parent
    rw [hjoins] at hparent
    show [c.truth store σ] = [t]
    rw [h σ hσ.node (hparent (List.mem_singleton_self _))]

theorem exists_choice (rows : List Row) (p : Row → Bool) :
    ∃ row, (row ∈ rows ∨ rows = [] ∧ row = .missing) ∧ (rows.any p = true → p row = true) := by
  by_cases hany : rows.any p = true
  · obtain ⟨row, hrow, hp⟩ := List.any_eq_true.mp hany
    exact ⟨row, Or.inl hrow, fun _ => hp⟩
  · cases rows with
    | nil => exact ⟨.missing, Or.inr ⟨rfl, rfl⟩, fun h => absurd h hany⟩
    | cons row rows => exact ⟨row, Or.inl List.mem_cons_self, fun h => absurd h hany⟩

/-- A filter that brings in rows by a numbered join means that the text in a column of one of its
partners meets the condition. -/
theorem means_of_join {c : Condition} {js : List Join} {j : Join} {n : Nat} {rows : List Row}
    {col : Column} {p : String → Bool} (hkeys : (js.map Join.key?).Nodup)
    (hjs : ∀ j' ∈ js, j' = parentJoin ∨ j' = j) (hj : j ∈ js) (hleft : j.kind = .left)
    (hnumber : j.source.name.number? = some n) (hcol : col.affinity = .text)
    (hpartners : ∀ σ : Scope, σ.row .node = .node r →
      (parentJoin ∈ js → parentJoin.Fits store σ) → j.partners store σ = rows)
    (htruth : ∀ (σ : Scope) t, (σ.row j.source.name).cell col = .ofText? t →
      (c.truth store σ = some true ↔ ∃ s, t = some s ∧ p s = true)) :
    (Filter.of c js).Means store r [some (rows.any fun row => (row.cell col).toText?.any p)] := by
  have hjoins : (Filter.of c js).joins.joins = js := JoinSet.joins_ofList hkeys
  have htrue : ∀ σ : Scope, c.truth store σ = some true ↔
      ((σ.row j.source.name).cell col).toText?.any p = true := by
    intro σ
    obtain ⟨t, ht⟩ := (σ.row j.source.name).cell_of_text hcol
    rw [htruth σ t ht, ht]
    cases t <;> simp [Datum.ofText?, Datum.toText?]
  have hmissing : ((Row.missing.cell col).toText?.any p) = false := by
    cases col <;> rfl
  constructor
  · intro σ hnode hfits
    rw [hjoins] at hfits
    -- Without partners the join sets nulls, which meet no condition.
    have hchoice := (Join.mem_choices_of_left store j hleft).mp (hfits j hj)
    rw [hpartners σ hnode (hfits _)] at hchoice
    refine List.Forall₂.cons (fun h => ?_) List.Forall₂.nil
    have hp := (htrue σ).mp h
    rcases hchoice with hrow | ⟨-, hrow⟩
    · exact congrArg some (List.any_eq_true.mpr ⟨_, hrow, hp⟩)
    · rw [hrow, hmissing] at hp
      exact absurd hp (by decide)
  · obtain ⟨row, hrow, hp⟩ := exists_choice rows fun row => (row.cell col).toText?.any p
    refine ⟨fun _ => row, fun σ hσ hpicks => ?_⟩
    have hparent : parentJoin ∈ js → parentJoin.Fits store σ := by
      rw [← hjoins]
      exact hσ.parent
    have hpicked : σ.row j.source.name = row := hpicks j (by rw [hjoins]; exact hj) n hnumber
    constructor
    · intro j' hj'
      rw [hjoins] at hj'
      rcases hjs j' hj' with rfl | rfl
      · exact hparent hj'
      · unfold Join.Fits
        rw [Join.mem_choices_of_left store _ hleft, hpartners σ hσ.node hparent, hpicked]
        exact hrow
    · refine List.Forall₂.cons (fun h => ?_) List.Forall₂.nil
      rw [htrue σ, hpicked]
      exact hp (Option.some.inj h)

end Filter

/-! ### Columns of the node and of its parent -/

theorem Store.view_parentName (store : Store) (r : NodeRow) :
    ∃ t, (store.view r).parentName = .ofText? t := by
  show ∃ t, ((store.parent? r).map fun q => q.cell .name).getD .null = .ofText? t
  cases store.parent? r with
  | none => exact ⟨none, rfl⟩
  | some q => exact ⟨q.name, rfl⟩

/-- The tags of the parent are those under the id of the stored parent. -/
theorem Store.view_parentTags (store : Store) (r : NodeRow) :
    (store.view r).parentTags = store.tagsOf ((store.parent? r).bind NodeRow.id) := by
  show ((store.parent? r).map fun q => store.tagsOf q.id).getD [] = _
  cases store.parent? r with
  | none =>
    refine (List.eq_nil_iff_forall_not_mem.mpr fun s hs => ?_).symm
    obtain ⟨t, -, ht, -⟩ := Store.mem_tagsOf.mp hs
    exact absurd ht (by simp)
  | some q => rfl

/-- The nested view differs only in the tags of the parent. -/
theorem Clause.positiveTruth_nestedView {c : Clause}
    (h : Route.ofField c.field = .ok .parentTags → c.effectiveOperator.isExistenceTest = true) :
    c.positiveTruth (store.nestedView r) = c.positiveTruth (store.view r) := by
  unfold Clause.positiveTruth
  cases hroute : Route.ofField c.field with
  | error fault => rfl
  | ok route =>
    cases route with
    | column k => rfl
    | parentName => rfl
    | custom field => rfl
    | parentTags =>
      -- The two views differ in the tags only, and a test for presence does not compare them.
      have hop := h hroute
      cases hc : c.effectiveOperator with
      | present => rfl
      | missing => rfl
      | contains =>
        rw [hc] at hop
        exact absurd hop (by decide)
      | compare _ =>
        rw [hc] at hop
        exact absurd hop Bool.false_ne_true

namespace Operator

/-- Null meets no comparison. -/
theorem columnTruth_null {affinity : Affinity} {v : Operand} {op : Operator}
    (hop : op.isExistenceTest = false) : op.columnTruth affinity v .null = none := by
  cases op with
  | compare _ => rfl
  | contains => rfl
  | present => exact absurd hop (by decide)
  | missing => exact absurd hop (by decide)

end Operator

/-- A value is there and not blank. -/
theorem allTrue_notBlank {a : Alias} {t : Option String}
    (hcell : (σ.row a).cell .fieldValue = .ofText? t) :
    Condition.allTrue store σ [.isNotNull (.column a .fieldValue),
      .compare (.column a .fieldValue) .notEqual (.quoted "")] = true ↔
        ∃ s, t = some s ∧ (s != "") = true := by
  have hnotNull : (Condition.isNotNull (.column a .fieldValue)).truth store σ = some t.isSome := by
    show some (!((σ.row a).cell .fieldValue).isNull) = _
    rw [hcell]
    cases t <;> rfl
  have hcompare : (Condition.compare (.column a .fieldValue) .notEqual (.quoted "")).truth store σ
      = t.map fun s => Comparison.notEqual.holds (Datum.textOrder s "") := by
    show (Datum.compare (some .text) none ((σ.row a).cell .fieldValue)
      (.ofText? (some ""))).map _ = _
    rw [hcell, Datum.compare_ofText? (Or.inl rfl)]
    cases t <;> rfl
  -- A value that is missing fails the first condition, an empty one the second.
  rw [Condition.allTrue_pair_iff, hnotNull, hcompare]
  cases t with
  | none => simp
  | some s =>
    show some true = some true ∧ some (Datum.textOrder s "" != .eq) = some true ↔ _
    simp only [true_and, Option.some.injEq, exists_eq_left', bne_iff_ne, ne_eq,
      Datum.textOrder_eq_eq_iff]

/-! ### Clauses below a negation -/

namespace Clause

variable {stem : String} {c : Clause} {n k : Nat} {f : Filter}

/-- **Below a negation** the filter of a clause has the truth of the clause. -/
theorem Becomes.exact (hids : store.UniqueIds) (h : c.Becomes stem true n f k) :
    f.Exact store r [c.positiveTruth (store.nestedView r)] := by
  cases h with
  | column k hroute =>
    rw [positiveTruth_column hroute]
    refine Filter.exact_of fun σ hnode => ?_
    exact Operator.truth_valueCondition (value_nodeColumn hnode k) r.cell_of_text _ _
  | parentName hroute hjoined =>
    rw [positiveTruth_parentName hroute, if_pos (hjoined rfl)]
    refine Filter.exact_of_parentJoin fun σ hnode hfits => ?_
    exact Operator.truth_valueCondition (cell_parent hnode hids hfits .name)
      (fun _ => store.view_parentName r) _ _
  | nestedParentName hroute hop =>
    rw [positiveTruth_parentName hroute, hop]
    refine Filter.exact_of fun σ hnode => ?_
    refine truth_existsParent hnode hids (by simp)
      (p := fun d => c.effectiveOperator.columnTruth .text c.value d == some true) ?_ ?_
    · rw [Operator.columnTruth_null hop]
      rfl
    · intro τ q hrow
      rw [beq_iff_eq, Operator.truth_valueCondition (d := q.cell .name) (by rw [hrow]; rfl)
        fun _ => ⟨q.name, rfl⟩]
      rfl
  | parentTagPresence hroute hop =>
    rw [positiveTruth_parentTags_of_test hroute hop]
    refine Filter.exact_of fun σ hnode => ?_
    refine (truth_existsParentTag hnode (by decide) (p := fun _ => true) _ ?_).trans ?_
    · exact fun τ s _ => iff_of_true rfl rfl
    · show some ((store.tagsOf r.parentId).any (fun _ => true) == _)
        = some ((!(store.tagsOf r.parentId).isEmpty) == _)
      cases store.tagsOf r.parentId <;> rfl
  | nestedParentTag hroute hop hordering =>
    rw [positiveTruth_parentTags hroute hop]
    refine Filter.exact_of fun σ hnode => ?_
    refine (truth_existsParentTag hnode (by simp)
      (p := fun s => c.effectiveOperator.textHolds c.value s) _ ?_).trans ?_
    · intro τ s hcell
      rw [Condition.allTrue_singleton_iff,
        Operator.truth_textCondition (t := some s) hcell rfl _ hop, Option.map_some,
        Option.some.injEq]
    · rw [beq_true]
      rfl
  | fieldPresence field hroute hop =>
    rw [positiveTruth_custom_of_test hroute hop]
    refine Filter.exact_of fun σ hnode => ?_
    exact truth_existsField hnode (by simp) field _ fun τ t hcell => allTrue_notBlank hcell
  | nestedField field holds hroute hop hholds =>
    rw [positiveTruth_custom hroute hop]
    refine Filter.exact_of fun σ hnode => ?_
    refine (truth_existsField hnode (by simp) field
      (p := fun s => c.effectiveOperator.valueHolds c.value s) _ ?_).trans ?_
    · intro τ t hcell
      rw [Condition.allTrue_singleton_iff, Operator.truth_fieldCondition hcell rfl hop hholds]
    · rw [beq_true]
      rfl

/-- **Outside of negations** the filter of a clause means the truth of the clause. -/
theorem Becomes.means (hids : store.UniqueIds) (h : c.Becomes stem false n f k) :
    f.Means store r [c.positiveTruth (store.view r)] := by
  -- Clauses that bring in no row of their own are the same below a negation.
  cases h with
  | column k hroute =>
    rw [← positiveTruth_nestedView (by rw [hroute]; rintro ⟨⟩)]
    have h : c.Becomes stem true n _ n := .column k hroute
    exact (h.exact hids).means
  | parentTagPresence hroute hop =>
    rw [← positiveTruth_nestedView fun _ => hop]
    have h : c.Becomes stem true n _ n := .parentTagPresence hroute hop
    exact (h.exact hids).means
  | fieldPresence field hroute hop =>
    rw [← positiveTruth_nestedView fun _ => hop]
    have h : c.Becomes stem true n _ (n + 1) := .fieldPresence field hroute hop
    exact (h.exact hids).means
  | parentName hroute hjoined =>
    have hexact : (Filter.of (valueCondition (.column .parent (.node .name)) false c.value
        c.effectiveOperator) [parentJoin]).Exact store r
        [c.effectiveOperator.columnTruth .text c.value (store.view r).parentName] := by
      refine Filter.exact_of_parentJoin fun σ hnode hfits => ?_
      exact Operator.truth_valueCondition (cell_parent hnode hids hfits .name)
        (fun _ => store.view_parentName r) _ _
    rw [positiveTruth_parentName hroute]
    -- The condition may be unknown where the clause is false, which selects no node either.
    refine hexact.means.congr_singleton ?_
    split
    · exact Iff.rfl
    · rw [Option.some.injEq, beq_iff_eq]
  | parentTag hroute hop hordering =>
    rw [positiveTruth_parentTags hroute hop, store.view_parentTags r, ← any_tagRows]
    refine Filter.means_of_join (j := parentTagJoin (.parentTag n)) ?_ ?_ ?_ rfl rfl rfl ?_ ?_
    · rw [List.map_cons, List.map_singleton, List.nodup_cons, List.mem_singleton]
      exact ⟨by rintro ⟨⟩, List.nodup_singleton _⟩
    · exact fun j hj => List.mem_pair.mp hj
    · exact List.mem_pair.mpr (Or.inr rfl)
    · intro σ hnode hfits
      -- The tags are joined by the id of the joined parent, not by the parent id of the node.
      apply partners_parentTagJoin (by simp)
      rw [cell_parent hnode hids (hfits (List.mem_pair.mpr (Or.inl rfl)))]
      cases store.parent? r <;> rfl
    · intro σ t hcell
      have htext : (σ.row (.parentTag n)).cell .tagName = .ofText? t := hcell
      rw [Operator.truth_textCondition htext rfl _ hop, Option.map_eq_some_iff]
  | field field holds hroute hop hholds =>
    rw [positiveTruth_custom hroute hop]
    show Filter.Means store r _ [some ((store.valuesOf r.id field).any _)]
    rw [← any_fieldRows]
    refine Filter.means_of_join (j := fieldJoin (.fieldValue stem n) field)
      (List.nodup_singleton _) ?_ (List.mem_singleton_self _) rfl rfl rfl ?_ ?_
    · exact fun j hj => Or.inr (List.mem_singleton.mp hj)
    · exact fun σ hnode _ => partners_fieldJoin hnode (by simp) field
    · exact fun σ t hcell => Operator.truth_fieldCondition hcell rfl hop hholds

end Clause

end GraphIndex
