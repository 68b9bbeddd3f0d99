import GraphIndex.Proofs.Plan.Selections
import GraphIndex.Proofs.Statement.Distinct

/-!
# The nodes that a query matches

The statement of a query selects the nodes that the query means: `Query.distinct_nodes_statement`,
for stores in which tags belong to stored nodes.
-/

namespace GraphIndex

variable {store : Store} {r : NodeRow}

/-! ### Tags of stored nodes -/

namespace Store

/-- Every tag is entered under the id of a stored node. -/
def OwnsTags (store : Store) : Prop := ∀ t ∈ store.tags, ∃ q ∈ store.nodes, q.id = some t.node

/-- The tags under the id of the parent of a node, if there are any, are those of a stored node. -/
def OwnsParentTags (store : Store) (r : NodeRow) : Prop :=
  ∀ t ∈ store.tags, r.parentId = some t.node → ∃ q ∈ store.nodes, q.id = some t.node

theorem OwnsTags.parentTags (h : store.OwnsTags) (r : NodeRow) : store.OwnsParentTags r :=
  fun t ht _ => h t ht

/-- Both ways to the tags of the parent lead to the same tags. -/
theorem OwnsParentTags.nestedView_eq (hids : store.UniqueIds) (h : store.OwnsParentTags r) :
    store.nestedView r = store.view r := by
  have htags : store.tagsOf r.parentId = (store.view r).parentTags := by
    rw [store.view_parentTags r]
    -- With a parent the tags are looked up under one id; without one there must be no tags at all.
    cases hparent : store.parent? r with
    | some q => rw [Option.bind_some, (parent?_eq_some hparent).2.2]
    | none =>
      have hnil : ∀ id, (∀ t ∈ store.tags, id ≠ some t.node) → store.tagsOf id = [] := by
        refine fun id hid => List.eq_nil_iff_forall_not_mem.mpr fun s hs => ?_
        obtain ⟨t, ht, heq, -⟩ := mem_tagsOf.mp hs
        exact hid t ht heq
      rw [Option.bind_none, hnil none fun t _ => by simp]
      refine hnil _ fun t ht heq => ?_
      obtain ⟨q, hq, hid⟩ := h t ht heq
      have hsome := (hids.parent?_eq_some_iff r q).mpr ⟨hq, by rw [hid]; rfl, by rw [hid, heq]⟩
      rw [hparent] at hsome
      exact absurd hsome (by simp)
  unfold nestedView
  rw [htags]

end Store

/-! ### Nodes without repetition -/

theorem Selection.distinct_nodes (hnodup : store.nodes.Nodup) (s : Selection)
    {p : NodeRow → Bool} (hp : ∀ r ∈ store.nodes, r ∈ s.nodes store ↔ p r = true) :
    distinct (s.nodes store) = store.nodes.filter p := by
  -- Joins repeat a node, but bring in no other.
  set g : NodeRow → List NodeRow := fun r =>
    (((extendAll store s.joins.joins [[(.node, .node r)]]).filter fun σ =>
      Condition.allTrue store σ s.conditions).map fun σ => (r, σ)).map (·.1)
  have hnodes : s.nodes store = store.nodes.flatMap g := List.map_flatMap
  have hg : ∀ r ∈ store.nodes, ∀ r' ∈ g r, r' = r := by
    intro r _ r' hr'
    obtain ⟨pair, hpair, rfl⟩ := List.mem_map.mp hr'
    obtain ⟨σ, -, rfl⟩ := List.mem_map.mp hpair
    rfl
  rw [hnodes, distinct_flatMap hnodup g hg]
  refine List.filter_congr fun r hr => ?_
  rw [Bool.eq_iff_iff, ← hp r hr, hnodes, List.mem_flatMap, Bool.not_eq_true',
    ← Bool.not_eq_true, List.isEmpty_iff]
  constructor
  · intro hne
    obtain ⟨r', hr'⟩ := List.exists_mem_of_ne_nil _ hne
    exact ⟨r, hr, hg r hr r' hr' ▸ hr'⟩
  · rintro ⟨r', hr', hmem⟩
    rw [hg r' hr' r hmem]
    exact List.ne_nil_of_mem hmem

/-! ### The nodes of a query -/

/-- Where tags belong to stored nodes, a selection has the nodes that its conditions mean. -/
theorem Selection.mem_nodes_iff_matches (hkeyed : store.Keyed) {find : String} {es : List Entry}
    {s : Selection} (h : Selection.of find es = .ok s) (hr : r ∈ store.nodes)
    (htags : store.OwnsParentTags r) :
    r ∈ s.nodes store ↔ store.matches find es r = true := by
  rw [Selection.mem_nodes_iff hkeyed.uniqueIds h, htags.nestedView_eq hkeyed.uniqueIds,
    Entry.splitTruths_self]
  unfold Store.matches
  rw [Bool.and_eq_true, List.all_eq_true]
  simp only [beq_iff_eq, hr, true_and]

theorem Query.statement_eq_ok_iff {q : Query} {s : PageStatement} :
    q.statement = .ok s ↔ Selection.of q.find q.conditions = .ok s.selection
      ∧ SortTerm.ofField q.sortKey.field = .ok s.sortBy ∧ s.descending = q.sortKey.descending
      ∧ s.limit = q.limit ∧ s.offset = q.offset := by
  simp only [Query.statement, bind_eq_ok_iff]
  constructor
  · rintro ⟨selection, hselection, term, hterm, hpure⟩
    obtain rfl := Except.ok.inj hpure
    exact ⟨hselection, hterm, rfl, rfl, rfl⟩
  · rintro ⟨hselection, hterm, hdescending, hlimit, hoffset⟩
    refine ⟨_, hselection, _, hterm, ?_⟩
    rw [← hdescending, ← hlimit, ← hoffset]
    rfl

/-- **The meaning of a query**: the statement of a query selects, each once, the nodes of the target
of which all conditions are true. -/
theorem Query.distinct_nodes_statement (hkeyed : store.Keyed) (htags : store.OwnsTags) {q : Query}
    {s : PageStatement} (h : q.statement = .ok s) :
    distinct (s.selection.nodes store)
      = store.nodes.filter (store.matches q.find q.conditions) :=
  Selection.distinct_nodes hkeyed.nodup _ fun r hr =>
    Selection.mem_nodes_iff_matches hkeyed (Query.statement_eq_ok_iff.mp h).1 hr
      (htags.parentTags r)

/-- A draft that carries a tag and has two values of a field, and its parent. -/
def sampleStore : Store where
  nodes := [⟨"n1", "Draft", "p1", none, .integer 1, .null, .null⟩,
    ⟨"p1", "Plan", none, none, .integer 2, .null, .null⟩]
  tags := [⟨"n1", "task"⟩, ⟨"p1", "urgent"⟩]
  fields := [⟨"n1", "status", "open", .integer 0⟩, ⟨"n1", "status", "late", .integer 1⟩]

theorem keyed_sampleStore : sampleStore.Keyed := ⟨by decide, by decide⟩

theorem ownsTags_sampleStore : sampleStore.OwnsTags := by
  unfold Store.OwnsTags
  decide

/-- Tasks that are both open and late and whose parent is not done. -/
def sampleQuery : Query :=
  { Query.forTarget "task" with
    conditions := [.clause (.equalTo "status" (.text "open")),
      .clause (.equalTo "status" (.text "late")),
      .group .any [.clause (.equalTo "parent.tags" (.text "done"))] true] }

/-- Each of two comparisons with one field picks a value of its own. -/
theorem Query.distinct_nodes_sample : ∃ s, sampleQuery.statement = .ok s ∧
    distinct (s.selection.nodes sampleStore)
      = [⟨"n1", "Draft", "p1", none, .integer 1, .null, .null⟩] := by
  obtain ⟨s, hs⟩ : ∃ s, sampleQuery.statement = .ok s := ⟨_, rfl⟩
  refine ⟨s, hs, ?_⟩
  rw [Query.distinct_nodes_statement keyed_sampleStore ownsTags_sampleStore hs]
  decide

end GraphIndex
