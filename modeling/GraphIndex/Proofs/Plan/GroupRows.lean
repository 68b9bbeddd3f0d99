import GraphIndex.Proofs.Plan.GroupKeys
import GraphIndex.Proofs.Plan.Matching

/-!
# Rows of group statements

The joins of conditions, of the target and of dimensions multiply rows independently of each other.
What comes of it is `GroupStatement.exists_row_iff`: a node has a row with given keys exactly if it
is selected and the keys are one of its combinations.
-/

namespace GraphIndex

variable {store : Store} {σ τ : Scope} {r : NodeRow}

/-! ### Selected nodes -/

/-- Whether a node belongs to a target and its conditions are met; below a negation the tags of its
parent are those under the parent id. -/
def Store.selects (store : Store) (find : String) (es : List Entry) (r : NodeRow) : Bool :=
  store.isTarget r find
    && (Entry.splitTruths (store.view r) (store.nestedView r) es).all (· == some true)

namespace Selection

variable {find : String} {es : List Entry} {s : Selection}

theorem mem_nodes_iff_selects (hids : store.UniqueIds) (h : Selection.of find es = .ok s) :
    r ∈ s.nodes store ↔ r ∈ store.nodes ∧ store.selects find es r = true := by
  rw [Selection.mem_nodes_iff hids h]
  unfold Store.selects
  rw [Bool.and_eq_true, List.all_eq_true]
  simp only [beq_iff_eq]

theorem mem_rows : (r, σ) ∈ s.rows store ↔ r ∈ store.nodes ∧
    σ ∈ extendAll store s.joins.joins [[(.node, .node r)]] ∧
      Condition.allTrue store σ s.conditions = true := by
  unfold Selection.rows
  simp only [List.mem_flatMap, List.mem_map, List.mem_filter, Prod.mk.injEq]
  constructor
  · rintro ⟨r', hr, σ', hσ, rfl, rfl⟩
    exact ⟨hr, hσ⟩
  · rintro ⟨hr, hσ⟩
    exact ⟨r, hr, σ, hσ, rfl, rfl⟩

/-- The conditions of a selection depend on the rows of its own joins only. -/
theorem allTrue_congr_of (h : Selection.of find es = .ok s)
    (hagree : Scope.Agree (joinNames s.joins.joins ++ [.node]) σ τ) :
    Condition.allTrue store σ s.conditions = Condition.allTrue store τ s.conditions := by
  refine Condition.allTrue_congr (hagree.mono fun b hb => ?_)
  rcases List.mem_cons.mp (listNames_of h hb) with rfl | hname
  · exact List.mem_append_right _ (List.mem_singleton_self _)
  · exact List.mem_append_left _ hname

end Selection

/-- Joins in order read the rows of joins and what was declared at first. -/
theorem WellScoped.names_subset {declared : List Alias} {js : List Join} {j : Join}
    (h : WellScoped declared js) (hj : j ∈ js) : j.names ⊆ joinNames js ++ declared := by
  obtain ⟨before, after, rfl⟩ := List.append_of_mem hj
  intro a ha
  rcases List.mem_append.mp (h.of_append.1 ha) with hname | hdeclared
  · refine List.mem_append_left _ ?_
    rw [joinNames, List.map_append]
    exact List.mem_append_left _ hname
  · exact List.mem_append_right _ hdeclared

/-! ### Parts of group statements -/

/-- What the statement of an aggregation is made of: a selection, the keys of the dimensions, and
the joins of both. -/
structure Aggregation.Parts (a : Aggregation) (selection : Selection) (keys : List GroupKey)
    (joins : JoinSet) : Prop where
  selected : Selection.of a.find a.conditions = .ok selection
  become : Dimension.BecomeAll 0 a.dimensions keys
  arranged : selection.joins.Arranged 0
  ordered : WellScoped [.node] joins.joins
  mem_joins : ∀ j, j ∈ joins.joins ↔
    j ∈ selection.joins.joins ∨ ∃ key ∈ keys, j ∈ key.joins

theorem Aggregation.exists_parts {a : Aggregation} {s : GroupStatement} (h : a.statement = .ok s) :
    ∃ selection keys joins, a.Parts selection keys joins ∧
      s = ⟨⟨joins, selection.conditions⟩, keys.map GroupKey.expr, successor a.cap⟩ := by
  have harranged := JoinSet.arranged_of_statement h
  obtain ⟨selection, keys, hselection, hkeys, rfl⟩ := Aggregation.exists_of_statement h
  have hsmall := JoinSet.arranged_of_selection hselection
  exact ⟨selection, keys, _, ⟨hselection, hkeys, hsmall, harranged.ordered,
    (JoinSet.Arranged.insertKeys hkeys hsmall).2⟩, rfl⟩

namespace Aggregation.Parts

variable {a : Aggregation} {selection : Selection} {keys : List GroupKey} {joins : JoinSet}

/-- The joins of dimensions drop no node, and their rows have keys of the node. -/
theorem sound (hids : store.UniqueIds) (h : a.Parts selection keys joins) (hr : r ∈ store.nodes)
    (hσ : σ ∈ extendAll store joins.joins [[(.node, .node r)]])
    (htrue : Condition.allTrue store σ selection.conditions = true) :
    store.selects a.find a.conditions r = true ∧
      keys.map (·.text σ) ∈ Dimension.keyLists store r a.dimensions := by
  obtain ⟨hagree, hfits⟩ := fits_of_mem_extendAll h.ordered hσ
  have hnode : σ.row .node = .node r := hagree _ (List.mem_singleton_self _)
  constructor
  · have hfits' : ∀ j ∈ selection.joins.joins, j.Fits store σ :=
      fun j hj => hfits j ((h.mem_joins j).mpr (Or.inl hj))
    obtain ⟨τ, hτ, hτσ⟩ := exists_mem_extendAll h.arranged.ordered hagree.symm hfits'
    have htrue' : Condition.allTrue store τ selection.conditions = true := by
      rw [Selection.allTrue_congr_of h.selected hτσ]
      exact htrue
    have hselected : r ∈ selection.nodes store := Selection.mem_nodes.mpr ⟨hr, τ, hτ, htrue'⟩
    exact ((Selection.mem_nodes_iff_selects hids h.selected).mp hselected).2
  · apply h.become.texts_mem hids hnode
    exact fun key hkey j hj => hfits j ((h.mem_joins j).mpr (Or.inr ⟨key, hkey, hj⟩))

/-! ### Rows beside those of a selection -/

/-- The rows of a scope, with those of the parent and of the dimensions put in. -/
def besideRow (store : Store) (r : NodeRow) (rows : Nat → Row) (τ : Scope) : Alias → Row
  | .parent => groupRow store r rows .parent
  | .dimension k => groupRow store r rows (.dimension k)
  | b => τ.row b

/-- A scope in which the joins of a selection fit has the row of the parent already. -/
theorem besideRow_eq (hids : store.UniqueIds) (h : a.Parts selection keys joins)
    (hnode : τ.row .node = .node r) (hfits : ∀ j ∈ selection.joins.joins, j.Fits store τ)
    (rows : Nat → Row) {b : Alias} (hb : b ∈ joinNames selection.joins.joins ++ [.node]) :
    besideRow store r rows τ b = τ.row b := by
  -- Only dimensions take rows from the new list, and no join of the selection is one of them.
  rcases List.mem_append.mp hb with hname | hb
  · obtain ⟨j, hj, rfl⟩ := List.mem_map.mp hname
    have hstatement := h.arranged.joins j hj
    cases hstatement with
    | target tag => rfl
    | filter h =>
      cases h with
      | parent => exact ((fits_parentJoin_iff hids hnode).mp (hfits _ hj)).symm
      | parentTag k _ _ => rfl
      | field k name _ _ => rfl
    | parentTags hk => omega
    | field hk name => omega
  · rw [List.mem_singleton.mp hb]
    rfl

/-- The rows of the dimensions can be set beside those of a selection. -/
theorem exists_beside (hids : store.UniqueIds) (h : a.Parts selection keys joins)
    (hnode : τ.row .node = .node r) (hfits : ∀ j ∈ selection.joins.joins, j.Fits store τ)
    {rows : Nat → Row}
    (hrows : ∀ σ : Scope, σ.row .node = .node r →
      (∀ key ∈ keys, ∀ j ∈ key.joins, σ.row j.source.name = groupRow store r rows j.source.name) →
      ∀ key ∈ keys, ∀ j ∈ key.joins, j.Fits store σ) :
    ∃ σ ∈ extendAll store joins.joins [[(.node, .node r)]],
      Scope.Agree (joinNames selection.joins.joins ++ [.node]) σ τ ∧
      ∀ key ∈ keys, ∀ j ∈ key.joins,
        σ.row j.source.name = groupRow store r rows j.source.name := by
  have hname : ∀ j ∈ joins.joins, j.source.name ∈ joinNames joins.joins ++ [.node] :=
    fun j hj => List.mem_append_left _ (List.mem_map_of_mem hj)
  -- What a scope with these rows has in common with `τ`, and what it has besides.
  have hgiven : ∀ σ : Scope, (∀ b ∈ joinNames joins.joins ++ [.node],
      σ.row b = besideRow store r rows τ b) →
        Scope.Agree (joinNames selection.joins.joins ++ [.node]) σ τ ∧
        ∀ key ∈ keys, ∀ j ∈ key.joins,
          σ.row j.source.name = groupRow store r rows j.source.name := by
    intro σ hσ
    constructor
    · intro b hb
      rw [← h.besideRow_eq hids hnode hfits rows hb]
      rcases List.mem_append.mp hb with hb | hb
      · obtain ⟨j, hj, rfl⟩ := List.mem_map.mp hb
        exact hσ _ (hname j ((h.mem_joins j).mpr (Or.inl hj)))
      · exact hσ _ (List.mem_append_right _ hb)
    · intro key hkey j hj
      rw [hσ _ (hname j ((h.mem_joins j).mpr (Or.inr ⟨key, hkey, hj⟩)))]
      rcases h.become.name_of_mem key hkey j hj with heq | ⟨n, -, heq⟩ <;> rw [heq] <;> rfl
  have hexists : ∃ σ ∈ extendAll store joins.joins [[(Alias.node, Row.node r)]],
      ∀ b ∈ joinNames joins.joins ++ [.node], σ.row b = besideRow store r rows τ b := by
    refine exists_mem_extendAll_of_rows h.ordered hnode fun σ hσ j hj => ?_
    obtain ⟨hagree, hσrows⟩ := hgiven σ hσ
    rcases (h.mem_joins j).mp hj with hj' | ⟨key, hkey, hj'⟩
    · have hread := hagree.mono (h.arranged.ordered.names_subset hj')
      unfold Join.Fits
      rw [hagree _ (List.mem_append_left _ (List.mem_map_of_mem hj')), Join.choices_congr hread]
      exact hfits j hj'
    · have hσnode : σ.row .node = .node r := by
        rw [hagree _ (List.mem_append_right _ (List.mem_singleton_self _))]
        exact hnode
      exact hrows σ hσnode hσrows key hkey j hj'
  obtain ⟨σ, hσ, hσrows⟩ := hexists
  exact ⟨σ, hσ, hgiven σ hσrows⟩

/-- A selected node has a row with each combination of its keys. -/
theorem attained (hids : store.UniqueIds) (h : a.Parts selection keys joins) (hr : r ∈ store.nodes)
    (hselects : store.selects a.find a.conditions r = true) {ks : List String}
    (hks : ks ∈ Dimension.keyLists store r a.dimensions) :
    ∃ σ ∈ extendAll store joins.joins [[(.node, .node r)]],
      Condition.allTrue store σ selection.conditions = true ∧ keys.map (·.text σ) = ks := by
  have hselected := (Selection.mem_nodes_iff_selects hids h.selected).mpr ⟨hr, hselects⟩
  obtain ⟨-, τ, hτ, htrue⟩ := Selection.mem_nodes.mp hselected
  obtain ⟨hagree, hfits⟩ := fits_of_mem_extendAll h.arranged.ordered hτ
  have hnode : τ.row .node = .node r := hagree _ (List.mem_singleton_self _)
  obtain ⟨rows, hrows⟩ := h.become.attained hids hks
  obtain ⟨σ, hσ, hστ, hσrows⟩ := h.exists_beside hids hnode hfits
    fun σ hσnode hσrows => (hrows σ hσnode hσrows).1
  refine ⟨σ, hσ, ?_, (hrows σ ?_ hσrows).2⟩
  · rw [Selection.allTrue_congr_of h.selected hστ]
    exact htrue
  · rw [hστ _ (List.mem_append_right _ (List.mem_singleton_self _))]
    exact hnode

end Aggregation.Parts

/-! ### Rows of group statements -/

namespace GroupStatement

variable {a : Aggregation} {s : GroupStatement}

theorem keysOf_map (selection : Selection) (keys : List GroupKey) (limit : Int64) (σ : Scope) :
    keysOf ⟨selection, keys.map GroupKey.expr, limit⟩ σ = keys.map (·.text σ) := by
  unfold keysOf
  rw [List.map_map]
  rfl

/-- **Rows of groups**: a node has a row with given keys exactly if it is selected and the keys are
one of its combinations, however many rows the joins make of it. -/
theorem exists_row_iff (hids : store.UniqueIds) (h : a.statement = .ok s) (r : NodeRow)
    (ks : List String) : (∃ σ, (r, σ) ∈ s.selection.rows store ∧ s.keysOf σ = ks) ↔
      r ∈ store.nodes ∧ store.selects a.find a.conditions r = true ∧
        ks ∈ Dimension.keyLists store r a.dimensions := by
  obtain ⟨selection, keys, joins, hparts, rfl⟩ := Aggregation.exists_parts h
  simp only [Selection.mem_rows, keysOf_map]
  constructor
  · rintro ⟨σ, ⟨hr, hσ, htrue⟩, rfl⟩
    exact ⟨hr, hparts.sound hids hr hσ htrue⟩
  · rintro ⟨hr, hselects, hks⟩
    obtain ⟨σ, hσ, htrue, htexts⟩ := hparts.attained hids hr hselects hks
    exact ⟨σ, ⟨hr, hσ, htrue⟩, htexts⟩

end GroupStatement

end GraphIndex
