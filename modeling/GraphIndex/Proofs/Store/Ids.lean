import GraphIndex.Proofs.Query.Meaning
import Mathlib.Data.List.Nodup
import Mathlib.Data.List.Pairwise

/-!
# Ids of nodes

However nodes are entered, an id names at most one node (`Store.uniqueIds_foldl_insertNode`), so
that a node has at most one parent (`Store.UniqueIds.parent?_eq_some_iff`). In a keyed store every
node has an id besides, and a store to which only nodes with ids are entered is keyed
(`Store.keyed_foldl_insertNode`).
-/

namespace GraphIndex

namespace Store

/-! ### Nodes under one id -/

/-- No two nodes have the same id. A node may have none, as the column is not kept from nulls. -/
def UniqueIds (store : Store) : Prop := (store.nodes.filterMap NodeRow.id).Nodup

theorem nodes_insertNode (store : Store) (cells : List Datum) :
    (store.insertNode cells).nodes
      = store.nodes.filter (fun r => (nodeRow cells).id.isNone || r.id != (nodeRow cells).id)
        ++ [nodeRow cells] :=
  rfl

namespace UniqueIds

variable {store : Store}

/-- Entering a node drops an older one with its id. -/
theorem insertNode (h : store.UniqueIds) (cells : List Datum) :
    (store.insertNode cells).UniqueIds := by
  unfold UniqueIds
  rw [nodes_insertNode, List.filterMap_append, List.nodup_append]
  refine ⟨h.sublist (List.filter_sublist.filterMap _), ?_, ?_⟩
  · cases hid : (nodeRow cells).id with
    | none => simp [hid]
    | some id => simp [hid]
  · intro id hmem id' hmem' heq
    obtain ⟨r, hr, hid⟩ := List.mem_filterMap.mp hmem
    obtain ⟨r', hr', hid'⟩ := List.mem_filterMap.mp hmem'
    rw [List.mem_singleton.mp hr'] at hid'
    rw [List.mem_filter, hid', hid, heq] at hr
    exact absurd hr.2 (by simp)

theorem eq_of_id_eq (h : store.UniqueIds) {r r' : NodeRow} (hr : r ∈ store.nodes)
    (hr' : r' ∈ store.nodes) (hsome : r.id.isSome = true) (hid : r.id = r'.id) : r = r' := by
  by_contra hne
  obtain ⟨id, heq⟩ := Option.isSome_iff_exists.mp hsome
  have hsymm : Std.Symm fun q q' : NodeRow =>
      ∀ id, q.id = some id → ∀ id', q'.id = some id' → id ≠ id' :=
    ⟨fun _ _ hapart id hid id' hid' => (hapart id' hid' id hid).symm⟩
  have hapart := (List.pairwise_filterMap.mp h).forall hr hr' hne
  exact hapart id heq id (hid.symm.trans heq) rfl

end UniqueIds

/-- However nodes are entered, an id names at most one of them. -/
theorem uniqueIds_foldl_insertNode (rows : List (List Datum)) :
    (rows.foldl Store.insertNode Store.empty).UniqueIds := by
  have hempty : Store.empty.UniqueIds := List.nodup_nil
  -- Further nodes are entered into any store with unique ids, not only into the empty one.
  generalize Store.empty = store at hempty ⊢
  induction rows generalizing store with
  | nil => exact hempty
  | cons cells rows ih => exact ih _ (hempty.insertNode cells)

/-! ### Stores in which every node has an id -/

/-- Every node has an id, and no two nodes have the same. -/
structure Keyed (store : Store) : Prop where
  isSome : ∀ r ∈ store.nodes, r.id.isSome = true
  nodup_ids : (store.nodes.map NodeRow.id).Nodup

namespace Keyed

variable {store : Store}

theorem uniqueIds (h : store.Keyed) : store.UniqueIds :=
  List.pairwise_filterMap.mpr ((List.pairwise_map.mp h.nodup_ids).imp
    fun hne id hid id' hid' heq => hne (by rw [hid, hid', heq]))

theorem of_uniqueIds (hsome : ∀ r ∈ store.nodes, r.id.isSome = true) (hids : store.UniqueIds) :
    store.Keyed := by
  refine ⟨hsome, List.pairwise_map.mpr ?_⟩
  refine (List.pairwise_filterMap.mp hids).imp_of_mem fun {q r} hq _ hapart heq => ?_
  obtain ⟨id, hid⟩ := Option.isSome_iff_exists.mp (hsome q hq)
  exact hapart id hid id (heq.symm.trans hid) rfl

/-- Entering a node that has an id keeps a store keyed. -/
theorem insertNode (h : store.Keyed) {cells : List Datum}
    (hid : (nodeRow cells).id.isSome = true) : (store.insertNode cells).Keyed := by
  refine of_uniqueIds (fun r hr => ?_) (h.uniqueIds.insertNode cells)
  rw [nodes_insertNode, List.mem_append, List.mem_singleton] at hr
  rcases hr with hr | rfl
  · exact h.isSome r (List.mem_filter.mp hr).1
  · exact hid

theorem nodup (h : store.Keyed) : store.nodes.Nodup := List.Nodup.of_map _ h.nodup_ids

theorem eq_of_id_eq (h : store.Keyed) {r r' : NodeRow} (hr : r ∈ store.nodes)
    (hr' : r' ∈ store.nodes) (hid : r.id = r'.id) : r = r' :=
  h.uniqueIds.eq_of_id_eq hr hr' (h.isSome r hr) hid

end Keyed

/-- A store is keyed if only nodes with ids were entered. -/
theorem keyed_foldl_insertNode {rows : List (List Datum)}
    (hids : ∀ cells ∈ rows, (nodeRow cells).id.isSome = true) :
    (rows.foldl Store.insertNode Store.empty).Keyed := by
  have hempty : Store.empty.Keyed := ⟨fun r hr => absurd hr List.not_mem_nil, List.nodup_nil⟩
  -- Further nodes are entered into any keyed store, not only into the empty one.
  generalize Store.empty = store at hempty ⊢
  induction rows generalizing store with
  | nil => exact hempty
  | cons cells rows ih =>
    rw [List.forall_mem_cons] at hids
    exact ih hids.2 _ (hempty.insertNode hids.1)

/-! ### Parents -/

variable {store : Store}

theorem parent?_eq_some {r q : NodeRow} (h : store.parent? r = some q) :
    q ∈ store.nodes ∧ q.id.isSome = true ∧ q.id = r.parentId := by
  unfold parent? at h
  have hp := List.find?_some h
  rw [Bool.and_eq_true, beq_iff_eq] at hp
  refine ⟨List.mem_of_find?_eq_some h, ?_, hp.2⟩
  rw [hp.2]
  exact hp.1

/-- The parent is the node that the parent id names. -/
theorem UniqueIds.parent?_eq_some_iff (hids : store.UniqueIds) (r q : NodeRow) :
    store.parent? r = some q ↔ q ∈ store.nodes ∧ q.id.isSome = true ∧ q.id = r.parentId := by
  refine ⟨parent?_eq_some, fun ⟨hq, hsome, hid⟩ => ?_⟩
  have hp : (r.parentId.isSome && q.id == r.parentId) = true := by
    rw [Bool.and_eq_true, beq_iff_eq, ← hid]
    exact ⟨hsome, rfl⟩
  cases hfind : store.parent? r with
  | none =>
    unfold parent? at hfind
    exact absurd hp (List.find?_eq_none.mp hfind q hq)
  | some q' =>
    obtain ⟨hq', -, hid'⟩ := parent?_eq_some hfind
    rw [hids.eq_of_id_eq hq hq' hsome (hid.trans hid'.symm)]

/-! ### Tags and values under an id -/

theorem mem_tagsOf {id : Option String} {s : String} :
    s ∈ store.tagsOf id ↔ ∃ t ∈ store.tags, id = some t.node ∧ t.tag = s := by
  unfold tagsOf
  simp only [List.mem_map, List.mem_filter, beq_iff_eq, and_assoc]

theorem mem_valuesOf {id : Option String} {field s : String} :
    s ∈ store.valuesOf id field ↔
      ∃ f ∈ store.fields, (id = some f.node ∧ f.field = field) ∧ f.value = some s := by
  unfold valuesOf
  simp only [List.mem_filterMap, List.mem_filter, Bool.and_eq_true, beq_iff_eq, and_assoc]

end Store

end GraphIndex
