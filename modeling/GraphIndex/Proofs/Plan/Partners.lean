import GraphIndex.Proofs.Plan.Conditions
import GraphIndex.Proofs.Store.Ids

/-!
# Rows of joins and nested queries

The rows that the joins of conditions bring in for a node, and the truth of the nested queries that
stand in their place below a negation.
-/

namespace GraphIndex

variable {store : Store} {σ : Scope} {r : NodeRow}

/-! ### Bound rows -/

theorem Expr.value_column {a : Alias} {row : Row} (h : σ.row a = row) (col : Column) :
    (Expr.column a col).value σ = row.cell col := by
  rw [Expr.value, h]

theorem Source.row_node_bind {s : Source} (hnode : σ.row .node = .node r) (hname : s.name ≠ .node)
    (row : Row) : (s.bind σ row).row .node = .node r := by
  rw [s.row_bind_of_ne σ row hname.symm]
  exact hnode

/-! ### Equal columns and bound texts -/

/-- Two columns of texts are equal if they hold the same text. -/
theorem truth_sameColumns {e d : Expr} {a b : Option String} (he : e.affinity? = some .text)
    (hd : d.affinity? = some .text) (ha : e.value σ = .ofText? a) (hb : d.value σ = .ofText? b) :
    (sameColumns e d).truth store σ = some true ↔ a.isSome = true ∧ a = b := by
  show Condition.compareTruth σ e .equal d = some true ↔ _
  unfold Condition.compareTruth
  rw [he, hd, ha, hb, Datum.compare_ofText? (Or.inr rfl)]
  cases a with
  | none => simp
  | some s =>
    cases b with
    | none => simp
    | some t =>
      rw [Option.bind_some, Option.map_some, Option.map_some, Option.some.injEq,
        Comparison.equal_holds_textOrder]
      simp

/-- A column of texts is equal to a bound text if it holds it. -/
theorem truth_equal_bound {e : Expr} {a : Option String} (he : e.affinity? = some .text)
    (ha : e.value σ = .ofText? a) (s : String) :
    (Condition.compare e .equal (.bound (.text s))).truth store σ = some true ↔ a = some s := by
  show Condition.compareTruth σ e .equal (.bound (.text s)) = some true ↔ _
  unfold Condition.compareTruth
  rw [he, ha, show (Expr.bound (.text s)).value σ = .ofText? (some s) from rfl,
    show (Expr.bound (.text s)).affinity? = none from rfl, Datum.compare_ofText? (Or.inl rfl)]
  cases a with
  | none => simp
  | some t =>
    rw [Option.bind_some, Option.map_some, Option.map_some, Option.some.injEq,
      Comparison.equal_holds_textOrder, Option.some.injEq]

section

variable (hnode : σ.row .node = .node r)

include hnode

theorem value_nodeColumn (k : NodeColumn) : (nodeColumn k).value σ = r.cell k :=
  Expr.value_column hnode (.node k)

/-- A row holds a value of a field of the node. -/
theorem allTrue_ofField {name : Alias} {f : FieldRow} (hrow : σ.row name = .field f)
    (field : String) :
    Condition.allTrue store σ (ofField name field) = true ↔
      r.id = some f.node ∧ f.field = field := by
  have hfield : (Expr.column name .fieldName).value σ = .ofText? (some f.field) :=
    Expr.value_column hrow .fieldName
  have hfieldNode : (Expr.column name .fieldNode).value σ = .ofText? (some f.node) :=
    Expr.value_column hrow .fieldNode
  unfold ofField
  rw [Condition.allTrue_pair_iff, truth_equal_bound rfl hfield,
    truth_sameColumns rfl rfl hfieldNode (value_nodeColumn hnode .id), Option.some.injEq]
  simp only [Option.isSome_some, true_and, eq_comm (a := r.id)]

end

/-! ### Partners -/

section

variable (hnode : σ.row .node = .node r)

include hnode

theorem partners_fieldJoin {name : Alias} (hname : name ≠ .node) (field : String) :
    (fieldJoin name field).partners store σ
      = (store.fields.filter fun f => r.id == some f.node && f.field == field).map .field := by
  unfold Join.partners
  show (store.fields.map Row.field).filter _ = _
  rw [List.filter_map]
  congr 1
  refine List.filter_congr fun f _ => ?_
  have hbound : (Source.bind ⟨.fields, name⟩ σ (.field f)).row .node = .node r :=
    Source.row_node_bind hnode hname _
  show Condition.allTrue store (Source.bind ⟨.fields, name⟩ σ (.field f)) (ofField name field) = _
  rw [Bool.eq_iff_iff, allTrue_ofField hbound (Source.row_bind_self _ _ _), Bool.and_eq_true,
    beq_iff_eq, beq_iff_eq]

theorem partners_tagJoin (tag : String) :
    (tagJoin tag).partners store σ
      = (store.tags.filter fun t => r.id == some t.node && t.tag == tag).map .tag := by
  unfold Join.partners
  show (store.tags.map Row.tag).filter _ = _
  rw [List.filter_map]
  congr 1
  refine List.filter_congr fun t _ => ?_
  set τ := Source.bind ⟨.tags, .tagged⟩ σ (.tag t)
  have hbound : τ.row .node = .node r := Source.row_node_bind hnode (by decide) _
  have hrow : τ.row .tagged = .tag t := Source.row_bind_self _ _ _
  have htag : (Expr.column .tagged .tagName).value τ = .ofText? (some t.tag) :=
    Expr.value_column hrow .tagName
  have htagNode : (Expr.column .tagged .tagNode).value τ = .ofText? (some t.node) :=
    Expr.value_column hrow .tagNode
  show Condition.allTrue store τ (tagJoin tag).on = _
  rw [Bool.eq_iff_iff]
  unfold tagJoin
  rw [Condition.allTrue_pair_iff, truth_equal_bound rfl htag,
    truth_sameColumns rfl rfl htagNode (value_nodeColumn hbound .id), Option.some.injEq,
    Bool.and_eq_true, beq_iff_eq, beq_iff_eq]
  simp only [Option.isSome_some, true_and, eq_comm (a := r.id)]

theorem mem_partners_parentJoin (hids : store.UniqueIds) (row : Row) :
    row ∈ parentJoin.partners store σ ↔ ∃ q, store.parent? r = some q ∧ row = .node q := by
  -- The condition of the join says that the row is the parent, which is unique.
  have hon : ∀ q, Condition.allTrue store (parentJoin.source.bind σ (.node q)) parentJoin.on = true
      ↔ q.id.isSome = true ∧ q.id = r.parentId := by
    intro q
    set τ := parentJoin.source.bind σ (.node q)
    have hbound : τ.row .node = .node r := Source.row_node_bind hnode (by decide) _
    have hid : (Expr.column .parent (.node .id)).value τ = .ofText? q.id :=
      Expr.value_column (Source.row_bind_self _ _ _) (.node .id)
    unfold parentJoin
    rw [Condition.allTrue_singleton_iff,
      truth_sameColumns rfl rfl hid (value_nodeColumn hbound .parentId)]
  rw [Join.mem_partners]
  constructor
  · rintro ⟨hrow, htrue⟩
    obtain ⟨q, hq, rfl⟩ := List.mem_map.mp hrow
    exact ⟨q, (hids.parent?_eq_some_iff r q).mpr ⟨hq, (hon q).mp htrue⟩, rfl⟩
  · rintro ⟨q, hparent, rfl⟩
    obtain ⟨hq, hid⟩ := Store.parent?_eq_some hparent
    exact ⟨List.mem_map_of_mem hq, (hon q).mpr hid⟩

/-- The join of the parent has one choice: the parent, or nulls without one. -/
theorem mem_choices_parentJoin (hids : store.UniqueIds) (row : Row) :
    row ∈ parentJoin.choices store σ ↔
      row = ((store.parent? r).map Row.node).getD .missing := by
  have hpartners := mem_partners_parentJoin hnode hids
  rw [Join.mem_choices_of_left _ _ rfl, hpartners, List.eq_nil_iff_forall_not_mem]
  simp only [hpartners]
  cases store.parent? r with
  | none => simp
  | some q => simp

/-- A column of the joined parent; null without one. -/
theorem cell_parent (hids : store.UniqueIds) (hfits : parentJoin.Fits store σ) (k : NodeColumn) :
    (σ.row .parent).cell (.node k) = ((store.parent? r).map fun q => q.cell k).getD .null := by
  have hrow : σ.row .parent = ((store.parent? r).map Row.node).getD .missing :=
    (mem_choices_parentJoin hnode hids _).mp hfits
  rw [hrow]
  cases store.parent? r <;> rfl

end

theorem partners_parentTagJoin {name : Alias} (hname : name ≠ .parent) {id : Option String}
    (hparent : (σ.row .parent).cell (.node .id) = .ofText? id) :
    (parentTagJoin name).partners store σ
      = (store.tags.filter fun t => id == some t.node).map .tag := by
  unfold Join.partners
  show (store.tags.map Row.tag).filter _ = _
  rw [List.filter_map]
  congr 1
  refine List.filter_congr fun t _ => ?_
  set τ := Source.bind ⟨.tags, name⟩ σ (.tag t)
  have hid : (Expr.column .parent (.node .id)).value τ = .ofText? id := by
    show (τ.row .parent).cell (.node .id) = _
    rw [Source.row_bind_of_ne _ _ _ hname.symm]
    exact hparent
  have htagNode : (Expr.column name .tagNode).value τ = .ofText? (some t.node) :=
    Expr.value_column (Source.row_bind_self _ _ _) .tagNode
  show Condition.allTrue store τ (parentTagJoin name).on = _
  rw [Bool.eq_iff_iff]
  unfold parentTagJoin
  rw [Condition.allTrue_singleton_iff, truth_sameColumns rfl rfl htagNode hid, beq_iff_eq]
  simp only [Option.isSome_some, true_and, eq_comm (a := id)]

/-! ### Nested queries -/

section

variable (hnode : σ.row .node = .node r)

include hnode

/-- A nested query for a value of a field of the node that meets conditions. -/
theorem truth_existsField {name : Alias} (hname : name ≠ .node) (field : String)
    {conditions : List Condition} {p : String → Bool} (holds : Bool)
    (hp : ∀ τ : Scope, ∀ t, (τ.row name).cell .fieldValue = .ofText? t →
      (Condition.allTrue store τ conditions = true ↔ ∃ s, t = some s ∧ p s = true)) :
    (Condition.exists holds ⟨.fields, name⟩ (ofField name field ++ conditions)).truth store σ
      = some ((store.valuesOf r.id field).any p == holds) := by
  rw [Condition.truth_exists]
  congr 2
  rw [Bool.eq_iff_iff, List.any_eq_true, List.any_eq_true]
  -- A row counts if it is of the node and the field and its value has the property.
  have hrow : ∀ f : FieldRow, Condition.allTrue store (Source.bind ⟨.fields, name⟩ σ (.field f))
      (ofField name field ++ conditions) = true ↔
        (r.id = some f.node ∧ f.field = field) ∧ ∃ s, f.value = some s ∧ p s = true := by
    intro f
    set τ := Source.bind ⟨.fields, name⟩ σ (.field f)
    have hname' : τ.row name = .field f := Source.row_bind_self _ _ _
    have hbound : τ.row .node = .node r := Source.row_node_bind hnode hname _
    rw [Condition.allTrue_append_iff, allTrue_ofField hbound hname',
      hp τ f.value (by rw [hname']; rfl)]
  constructor
  · rintro ⟨row, hmem, htrue⟩
    obtain ⟨f, hf, rfl⟩ := List.mem_map.mp hmem
    obtain ⟨hof, s, hs, hps⟩ := (hrow f).mp htrue
    exact ⟨s, Store.mem_valuesOf.mpr ⟨f, hf, hof, hs⟩, hps⟩
  · rintro ⟨s, hmem, hps⟩
    obtain ⟨f, hf, hof, hs⟩ := Store.mem_valuesOf.mp hmem
    exact ⟨.field f, List.mem_map_of_mem hf, (hrow f).mpr ⟨hof, s, hs, hps⟩⟩

/-- A nested query for a tag under the id of the parent that meets conditions. -/
theorem truth_existsParentTag {name : Alias} (hname : name ≠ .node)
    {conditions : List Condition} {p : String → Bool} (holds : Bool)
    (hp : ∀ τ : Scope, ∀ s, (τ.row name).cell .tagName = .text s →
      (Condition.allTrue store τ conditions = true ↔ p s = true)) :
    (Condition.exists holds ⟨.tags, name⟩
        (sameColumns (.column name .tagNode) (nodeColumn .parentId) :: conditions)).truth store σ
      = some ((store.tagsOf r.parentId).any p == holds) := by
  rw [Condition.truth_exists]
  congr 2
  rw [Bool.eq_iff_iff, List.any_eq_true, List.any_eq_true]
  -- A row counts if it is a tag of the parent and has the property.
  have hrow : ∀ t : TagRow, Condition.allTrue store (Source.bind ⟨.tags, name⟩ σ (.tag t))
      (sameColumns (.column name .tagNode) (nodeColumn .parentId) :: conditions) = true ↔
        r.parentId = some t.node ∧ p t.tag = true := by
    intro t
    set τ := Source.bind ⟨.tags, name⟩ σ (.tag t)
    have hname' : τ.row name = .tag t := Source.row_bind_self _ _ _
    have hbound : τ.row .node = .node r := Source.row_node_bind hnode hname _
    have htagNode : (Expr.column name .tagNode).value τ = .ofText? (some t.node) :=
      Expr.value_column hname' .tagNode
    rw [← List.singleton_append, Condition.allTrue_append_iff, Condition.allTrue_singleton_iff,
      truth_sameColumns rfl rfl htagNode (value_nodeColumn hbound .parentId),
      hp τ t.tag (by rw [hname']; rfl)]
    simp only [Option.isSome_some, true_and, eq_comm (a := r.parentId)]
  constructor
  · rintro ⟨row, hmem, htrue⟩
    obtain ⟨t, ht, rfl⟩ := List.mem_map.mp hmem
    obtain ⟨hid, hpt⟩ := (hrow t).mp htrue
    exact ⟨t.tag, Store.mem_tagsOf.mpr ⟨t, ht, hid, rfl⟩, hpt⟩
  · rintro ⟨s, hmem, hps⟩
    obtain ⟨t, ht, hid, rfl⟩ := Store.mem_tagsOf.mp hmem
    exact ⟨.tag t, List.mem_map_of_mem ht, (hrow t).mpr ⟨hid, hps⟩⟩

/-- A nested query for the parent that meets a condition. -/
theorem truth_existsParent (hids : store.UniqueIds) {name : Alias} (hname : name ≠ .node)
    {condition : Condition} {p : Datum → Bool} (hnull : p .null = false)
    (hp : ∀ τ : Scope, ∀ q, τ.row name = .node q →
      (condition.truth store τ = some true ↔ p (q.cell .name) = true)) :
    (Condition.exists true ⟨.nodes, name⟩
        [sameColumns (.column name (.node .id)) (nodeColumn .parentId), condition]).truth store σ
      = some (p (((store.parent? r).map fun q => q.cell .name).getD .null)) := by
  rw [Condition.truth_exists]
  congr 1
  rw [beq_true, Bool.eq_iff_iff, List.any_eq_true]
  -- No other node than the parent has its id.
  have hrow : ∀ q : NodeRow, Condition.allTrue store (Source.bind ⟨.nodes, name⟩ σ (.node q))
      [sameColumns (.column name (.node .id)) (nodeColumn .parentId), condition] = true ↔
        (q.id.isSome = true ∧ q.id = r.parentId) ∧ p (q.cell .name) = true := by
    intro q
    set τ := Source.bind ⟨.nodes, name⟩ σ (.node q)
    have hname' : τ.row name = .node q := Source.row_bind_self _ _ _
    have hbound : τ.row .node = .node r := Source.row_node_bind hnode hname _
    have hid : (Expr.column name (.node .id)).value τ = .ofText? q.id :=
      Expr.value_column hname' (.node .id)
    rw [Condition.allTrue_pair_iff, truth_sameColumns rfl rfl hid
      (value_nodeColumn hbound .parentId), hp τ q hname']
  constructor
  · rintro ⟨row, hmem, htrue⟩
    obtain ⟨q, hq, rfl⟩ := List.mem_map.mp hmem
    obtain ⟨hid, hpq⟩ := (hrow q).mp htrue
    rw [(hids.parent?_eq_some_iff r q).mpr ⟨hq, hid⟩]
    exact hpq
  · intro htrue
    cases hparent : store.parent? r with
    | none =>
      rw [hparent] at htrue
      exact absurd (hnull.symm.trans htrue) (by decide)
    | some q =>
      rw [hparent] at htrue
      obtain ⟨hq, hid⟩ := Store.parent?_eq_some hparent
      exact ⟨.node q, List.mem_map_of_mem hq, (hrow q).mpr ⟨hid, htrue⟩⟩

end

end GraphIndex
