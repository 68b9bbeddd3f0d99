import GraphIndex.Proofs.Plan.Selections
import GraphIndex.Proofs.Statement.Distinct
import GraphIndex.Proofs.Store.Sorting

/-!
# The nodes of a page statement

All nodes of a statement for pages, in order: each selected node once (`PageStatement.mem_nodes`,
`PageStatement.nodup_nodes`), one strictly before the other (`PageStatement.pairwise_nodes`). No
other list is like this (`PageStatement.eq_nodes`), so that it does not matter how often joins
repeat a node.
-/

namespace GraphIndex

/-! ### Stores of the declared types -/

/-- A point in time or null. -/
def Datum.IsInstant : Datum → Prop
  | .null | .integer _ => True
  | _ => False

/-- Nodes have ids of their own, columns of dates hold points in time, and there are no more nodes
than can be numbered. -/
structure Store.WellTyped (store : Store) : Prop where
  keyed : store.Keyed
  dates : ∀ r ∈ store.nodes, ∀ k : NodeColumn, k.isDate = true → (r.cell k).IsInstant
  size : store.nodes.length < 2 ^ 63

namespace Store.WellTyped

variable {store : Store} {r : NodeRow}

theorem isPlain_cell (h : store.WellTyped) (hr : r ∈ store.nodes) (k : NodeColumn) :
    (r.cell k).IsPlain := by
  by_cases hdate : k.isDate = true
  · have hinstant := h.dates r hr k hdate
    cases hcell : r.cell k with
    | real x =>
      rw [hcell] at hinstant
      exact absurd hinstant id
    | _ => trivial
  · obtain ⟨t, ht⟩ := r.cell_of_text (k := k) (by cases k <;> simp_all [Column.affinity])
    rw [ht]
    exact Datum.isPlain_ofText? t

theorem isPlain_value (h : store.WellTyped) (hr : r ∈ store.nodes) (term : SortTerm) :
    (term.value store r).IsPlain := by
  cases term with
  | column k => exact h.isPlain_cell hr k
  | parentName =>
    show (nameOfNode store (r.cell .parentId)).IsPlain
    unfold nameOfNode
    split
    · exact Datum.isPlain_ofText? _
    · trivial
  | field name =>
    show (firstValue store (r.cell .id) name).IsPlain
    simp only [firstValue]
    split
    · exact Datum.isPlain_ofText? _
    · trivial

end Store.WellTyped

/-! ### The order of nodes -/

namespace PageStatement

variable {store : Store} {s : PageStatement} {r r' : NodeRow}

theorem isSortKey_of_isPlain {f : NodeRow → Datum} (hf : ∀ r ∈ store.nodes, (f r).IsPlain) :
    IsSortKey store.nodes (fun r r' => (f r).order (f r')) fun r => (f r).sortKey :=
  (Datum.isSortKey_order (List.forall_mem_map.mpr hf)).comap

/-- The nodes of a well-typed store compare as keys do. -/
theorem exists_isSortKey (h : store.WellTyped) (s : PageStatement) :
    ∃ (α : Type) (_ : LinearOrder α) (key : NodeRow → α),
      IsSortKey store.nodes (s.order store) key := by
  have hvalue := isSortKey_of_isPlain fun r hr => h.isPlain_value hr s.sortBy
  have hid := isSortKey_of_isPlain fun r hr => h.isPlain_cell hr .id
  unfold PageStatement.order
  cases s.descending with
  | true => exact ⟨_, _, _, hvalue.swap.andThen hid⟩
  | false => exact ⟨_, _, _, hvalue.andThen hid⟩

/-- Only a node itself is in its place, for no two nodes have one id. -/
theorem eq_of_order_eq (h : store.WellTyped) (hr : r ∈ store.nodes) (hr' : r' ∈ store.nodes)
    (heq : s.order store r r' = .eq) : r = r' := by
  unfold PageStatement.order at heq
  rw [Ordering.then_eq_eq,
    Datum.order_eq_eq_iff (h.isPlain_cell hr .id) (h.isPlain_cell hr' .id)] at heq
  exact h.keyed.eq_of_id_eq hr hr' (Datum.ofText?_inj.mp heq.2)

/-! ### All nodes of a statement -/

theorem mem_nodes : r ∈ s.nodes store ↔ r ∈ s.selection.nodes store := by
  unfold PageStatement.nodes
  rw [List.mem_mergeSort, mem_distinct]

theorem mem_store_of_mem_nodes (hr : r ∈ s.nodes store) : r ∈ store.nodes :=
  (Selection.mem_nodes.mp (mem_nodes.mp hr)).1

theorem nodup_nodes (store : Store) (s : PageStatement) : (s.nodes store).Nodup :=
  (List.mergeSort_perm _ _).nodup_iff.mpr (nodup_distinct _)

/-- A statement answers no more nodes than there are. -/
theorem length_nodes_le (store : Store) (s : PageStatement) :
    (s.nodes store).length ≤ store.nodes.length := by
  have hsub : s.nodes store ⊆ store.nodes := fun r hr => mem_store_of_mem_nodes hr
  exact ((nodup_nodes store s).subperm hsub).length_le

/-- **The nodes of a statement are in strict order.** -/
theorem pairwise_nodes (h : store.WellTyped) (s : PageStatement) :
    (s.nodes store).Pairwise fun r r' => s.order store r r' = .lt := by
  obtain ⟨α, _, key, hkey⟩ := exists_isSortKey h s
  have hsub : distinct (s.selection.nodes store) ⊆ store.nodes :=
    fun r hr => (Selection.mem_nodes.mp (mem_distinct.mp hr)).1
  refine (hkey.mono hsub).pairwise_lt_mergeSort ?_
  -- Sort keys end with the id, so that different nodes have different keys.
  refine (nodup_distinct _).map_on fun r hr r' hr' heq => ?_
  exact eq_of_order_eq h (hsub hr) (hsub hr') ((hkey.eq_iff r (hsub hr) r' (hsub hr')).mpr heq)

/-- No other list without repetition has the selected nodes in order. -/
theorem eq_nodes (h : store.WellTyped) {rows : List NodeRow} (hnodup : rows.Nodup)
    (hmem : ∀ r, r ∈ rows ↔ r ∈ s.selection.nodes store)
    (hsorted : rows.Pairwise fun r r' => s.order store r r' = .lt) : rows = s.nodes store := by
  obtain ⟨α, _, key, hkey⟩ := exists_isSortKey h s
  have hperm : rows.Perm (s.nodes store) :=
    (List.perm_ext_iff_of_nodup hnodup (nodup_nodes store s)).mpr fun r =>
      (hmem r).trans mem_nodes.symm
  refine hperm.eq_of_pairwise ?_ hsorted (pairwise_nodes h s)
  intro r r' hr hr' hlt hgt
  have hr := (Selection.mem_nodes.mp ((hmem r).mp hr)).1
  have hr' := mem_store_of_mem_nodes hr'
  rw [hkey.lt_iff r hr r' hr'] at hlt
  rw [hkey.lt_iff r' hr' r hr] at hgt
  exact absurd hlt (lt_asymm hgt)

end PageStatement

end GraphIndex
