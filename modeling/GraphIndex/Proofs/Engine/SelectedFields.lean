import GraphIndex.Proofs.Engine.Answers

/-!
# Selected fields

The names of the selected fields are all bound by each statement that looks up values, so that too
many of them cannot be looked up at all; otherwise every list of different nodes gets its values
(`Database.resolvesFields_iff`). The fields that an answer shows of a node depend on nothing but the
node and the names (`Node.ShowsFields.fields_eq`).
-/

namespace GraphIndex

/-! ### Tables of values -/

section

variable {db : Database} {store : Store} {nodes fields : List String}

/-- A table holds the values of fields of nodes: no key twice, and under a node and a field that
were asked for the values of the field in their order. -/
structure FieldTable.Holds (t : FieldTable) (s : Store) (nodes fields : List String) : Prop where
  keyed : t.Keyed
  text?_eq : ∀ node field, t.text? node field
    = if node ∈ nodes ∧ field ∈ fields then s.fieldText? node field else none

theorem Store.holds_fieldValues (h : store.HasStorablePlaces) (hnodes : nodes.Nodup) (size : Nat)
    (fields : List String) :
    (store.fieldValues size nodes fields).Holds store nodes fields :=
  ⟨FieldTable.keyed_ofRows _, store.text?_fieldValues h hnodes size fields⟩

namespace Database

/-- The values of fields can be looked up for all lists of different nodes. -/
def ResolvesFields (db : Database) (store : Store) (fields : List String) : Prop :=
  ∀ nodes : List String, nodes.Nodup →
    ∃ t, db.fieldResolver.values nodes fields = .ok t ∧ t.Holds store nodes fields

theorem exists_values_fieldSource (hstore : db.store = .ok store) (h : store.HasStorablePlaces)
    (hnodes : nodes.Nodup) (fields : List String) :
    ∃ t, db.fieldSource.values nodes fields = .ok t ∧ t.Holds store nodes fields := by
  by_cases hempty : (nodes.isEmpty || fields.isEmpty) = true
  · refine ⟨.empty, ?_, FieldTable.keyed_ofRows [], fun node field => ?_⟩
    · show (if _ then _ else _) = _
      rw [if_pos hempty]
      rfl
    · -- Nothing is looked up, and nothing would be there.
      have hnone : ¬ (node ∈ nodes ∧ field ∈ fields) := by
        rintro ⟨hnode, hfield⟩
        simp only [Bool.or_eq_true, List.isEmpty_iff] at hempty
        rcases hempty with rfl | rfl
        · exact List.not_mem_nil hnode
        · exact List.not_mem_nil hfield
      rw [if_neg hnone]
      rfl
  · refine ⟨_, ?_, store.holds_fieldValues h hnodes (chunkSize fields) fields⟩
    show (if _ then _ else db.store >>= _) = _
    rw [if_neg hempty, hstore]
    rfl

theorem resolvesFields_iff (hstore : db.store = .ok store) (h : store.HasStorablePlaces)
    (fields : List String) : db.ResolvesFields store fields ↔ fields.length < bindingLimit := by
  constructor
  · intro hresolves
    obtain ⟨t, ht, -⟩ := hresolves [""] (List.nodup_singleton _)
    by_contra hmany
    rw [values_fieldResolver, if_neg (by simpa using hmany)] at ht
    exact absurd ht (by rintro ⟨⟩)
  · intro hfew nodes hnodes
    rw [values_fieldResolver, if_pos (Or.inr hfew)]
    exact exists_values_fieldSource hstore h hnodes fields

end Database

end

/-! ### Fields of a node -/

/-- A node shows those of the named fields that have values, in the order of their names. -/
def Node.ShowsFields (store : Store) (names : List String) (n : Node) : Prop :=
  ∃ fields, n.fields = some fields ∧ fields.Pairwise (fun a b => a.1 < b.1) ∧
    ∀ name, fields.lookup name = if name ∈ names then store.fieldText? n.id name else none

theorem nodup_of_pairwise_lt {fields : List (String × String)}
    (h : fields.Pairwise fun a b => a.1 < b.1) : (fields.map (·.1)).Nodup :=
  List.pairwise_map.mpr (h.imp fun hlt => hlt.ne)

theorem FieldTable.Keyed.nodup_fields {t : FieldTable} (h : t.Keyed) (node : String) :
    (((t.get? node).getD []).map (·.1)).Nodup := by
  cases hget : t.get? node with
  | none => exact List.nodup_nil
  | some fields => exact (h.fields _ ((lookup_eq_some_iff_mem h.nodes).mp hget)).2

namespace Node

variable {store : Store} {names nodes : List String} {n n' : Node} {t : FieldTable}

/-- The values of a table that holds them are shown. -/
theorem showsFields_withFields (ht : t.Holds store nodes names) (hn : n.id ∈ nodes) :
    (Node.withFields t n).ShowsFields store names := by
  have hkeys := ht.keyed.nodup_fields n.id
  have hsort : IsSortKey ((t.get? n.id).getD []) (fun a b => Datum.textOrder a.1 b.1) (·.1) :=
    .of_compare fun _ _ _ _ => Datum.textOrder_eq_compare _ _
  refine ⟨_, rfl, (hsort.pairwise_lt_mergeSort hkeys).imp fun {a b} hlt => ?_, fun name => ?_⟩
  · rwa [Datum.textOrder_eq_compare, compare_lt_iff_lt] at hlt
  · rw [lookup_eq_of_perm hkeys (List.mergeSort_perm _ _).symm]
    have htext := ht.text?_eq n.id name
    simp only [hn, true_and] at htext
    refine Eq.trans ?_ htext
    unfold FieldTable.text?
    cases t.get? n.id <;> rfl

/-- What a node shows is settled by its id and the names. -/
theorem ShowsFields.fields_eq (h : n.ShowsFields store names) (h' : n'.ShowsFields store names)
    (hid : n.id = n'.id) : n.fields = n'.fields := by
  obtain ⟨fields, hfields, hordered, htext⟩ := h
  obtain ⟨fields', hfields', hordered', htext'⟩ := h'
  have hmem : ∀ e, e ∈ fields ↔ e ∈ fields' := by
    rintro ⟨name, value⟩
    rw [← lookup_eq_some_iff_mem (nodup_of_pairwise_lt hordered), htext, hid, ← htext',
      lookup_eq_some_iff_mem (nodup_of_pairwise_lt hordered')]
  have hirrefl : Std.Irrefl fun a b : String × String => a.1 < b.1 := ⟨fun a => lt_irrefl a.1⟩
  have hantisymm : Std.Antisymm fun a b : String × String => a.1 < b.1 :=
    ⟨fun a b hab hba => absurd hba (lt_asymm hab)⟩
  rw [hfields, hfields', hordered.eq_of_mem_iff hordered' hmem]

end Node

namespace Query

variable {db : Database} {store : Store} {q : Query} {now : Int} {page : Page}

/-- The nodes of a page show the fields that are selected. -/
theorem exists_showsFields (hstore : db.store = .ok store) (hids : store.UniqueIds)
    (hplaces : store.HasStorablePlaces) {select : List String} (hselect : q.select = some select)
    (hrun : q.run db db.fieldResolver now = .ok page) :
    ∃ names, selectedFields db.fieldResolver q.find select = .ok names ∧
      page.fieldNames = some names ∧ ∀ n ∈ page.nodes, n.ShowsFields store names := by
  unfold Query.run at hrun
  simp only [bind_eq_ok_iff, hselect] at hrun
  obtain ⟨s, -, ns, hread, hfields⟩ := hrun
  unfold Query.read at hread
  obtain ⟨store', hfor, hrows⟩ := bind_eq_ok_iff.mp hread
  rw [eq_of_storeFor hstore hfor] at hrows
  unfold Page.withFields at hfields
  simp only [bind_eq_ok_iff] at hfields
  obtain ⟨names, hnames, t, ht, hpage⟩ := hfields
  obtain rfl := Except.ok.inj hpage
  -- A page has no node twice, so the ids that are asked for are different.
  have hnodup : (ns.map (·.id)).Nodup := by
    refine Node.nodup_ids_of_ofRows hids (fun r hr => ?_) ?_ hrows
    · exact PageStatement.mem_store_of_mem_nodes (List.mem_of_mem_drop (List.mem_of_mem_take hr))
    · exact ((PageStatement.nodup_nodes store s).sublist (List.drop_sublist _ _)).sublist
        (List.take_sublist _ _)
  have hholds : t.Holds store (ns.map (·.id)) names := by
    obtain ⟨t', ht', hholds⟩ := Database.exists_values_fieldSource hstore hplaces hnodup names
    rw [Database.values_fieldResolver] at ht
    split_ifs at ht
    exact Except.ok.inj (ht'.symm.trans ht) ▸ hholds
  refine ⟨names, hnames, rfl, fun n hn => ?_⟩
  obtain ⟨n', hn', rfl⟩ := List.mem_map.mp hn
  exact Node.showsFields_withFields hholds (List.mem_map_of_mem hn')

end Query

/-! ### Values for all answers -/

/-- **Fields do not depend on the page.** However many nodes are looked up at a time, a list of
different nodes gets the values of its fields in their order, each field as one text. The names of
fields can be looked up for all lists of nodes just if there are fewer than can be bound; with more
of them nothing is looked up but for no node. A node that is in two answers to queries with one
target and one selection shows the same fields in both. -/
theorem Database.fields_resolved {db : Database} {store : Store} (hstore : db.store = .ok store)
    (hids : store.UniqueIds) (hplaces : store.HasStorablePlaces) (names : List String) :
    (∀ size nodes, nodes.Nodup →
      (store.fieldValues size nodes names).Holds store nodes names) ∧
    (db.ResolvesFields store names ↔ names.length < bindingLimit) ∧
    (∀ nodes, nodes ≠ [] → bindingLimit ≤ names.length →
      db.fieldResolver.values nodes names = .error .storage) ∧
    ∀ (q q' : Query) (now now' : Int) (page page' : Page) (select : List String),
      q.find = q'.find → q.select = some select → q'.select = some select →
      q.run db db.fieldResolver now = .ok page → q'.run db db.fieldResolver now' = .ok page' →
      ∀ n ∈ page.nodes, ∀ n' ∈ page'.nodes, n.id = n'.id → n.fields = n'.fields := by
  refine ⟨fun size nodes hnodes => store.holds_fieldValues hplaces hnodes size names,
    resolvesFields_iff hstore hplaces names, fun nodes hnodes hmany => ?_, ?_⟩
  · rw [values_fieldResolver, if_neg (by simp [hnodes, hmany])]
  · intro q q' now now' page page' select hfind hselect hselect' hrun hrun' n hn n' hn' hid
    obtain ⟨names, hnames, -, hshows⟩ :=
      Query.exists_showsFields hstore hids hplaces hselect hrun
    obtain ⟨names', hnames', -, hshows'⟩ :=
      Query.exists_showsFields hstore hids hplaces hselect' hrun'
    rw [hfind, hnames'] at hnames
    obtain rfl := Except.ok.inj hnames
    exact (hshows n hn).fields_eq (hshows' n' hn') hid

theorem hasStorablePlaces_sampleStore : sampleStore.HasStorablePlaces := by
  intro r hr
  simp only [sampleStore, List.mem_cons, List.not_mem_nil, or_false] at hr
  rcases hr with rfl | rfl <;> trivial

/-- The status of the nodes of the sample can be looked up, in parts of one node as well. -/
theorem fields_resolved_status :
    (⟨some sampleStore⟩ : Database).ResolvesFields sampleStore ["status"] ∧
    (sampleStore.fieldValues 1 ["p1", "n1"] ["status"]).Holds sampleStore ["p1", "n1"]
      ["status"] := by
  have hstore : (⟨some sampleStore⟩ : Database).store = .ok sampleStore := rfl
  obtain ⟨hvalues, hresolves, -, -⟩ := Database.fields_resolved hstore
    keyed_sampleStore.uniqueIds hasStorablePlaces_sampleStore ["status"]
  exact ⟨hresolves.mpr (by decide), hvalues 1 ["p1", "n1"] (by decide)⟩

/-- The status of one node cannot be looked up by a list of too many names, all of them the same. -/
theorem not_fields_resolved_many :
    sampleStore.fields.any (Store.holdsValue "n1" "status") = true ∧
    (⟨some sampleStore⟩ : Database).fieldResolver.values ["n1"] (List.replicate 32766 "status")
      = .error .storage ∧
    ¬ (⟨some sampleStore⟩ : Database).ResolvesFields sampleStore
      (List.replicate 32766 "status") := by
  have hlength : (List.replicate 32766 "status").length = bindingLimit := List.length_replicate
  refine ⟨by decide, ?_, ?_⟩
  · rw [Database.values_fieldResolver, if_neg (by rw [hlength]; simp)]
  · rw [Database.resolvesFields_iff rfl hasStorablePlaces_sampleStore, hlength]
    exact lt_irrefl _

end GraphIndex
