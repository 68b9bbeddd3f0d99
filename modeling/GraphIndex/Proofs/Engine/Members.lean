import GraphIndex.Proofs.Engine.Counts

/-!
# Members of groups

A group along a custom field has a condition of its own: that the field equals the key of the group.
`Aggregation.group_members` says that a query with this condition beside those of the aggregation
finds as many nodes as the group counts. A key that looks like a date is left out: as the value of a
condition such a text is a point in time, as a key it stays a text
(`Aggregation.not_group_members_dated`).
-/

namespace GraphIndex

/-! ### The condition of a group -/

namespace Route

variable {field name : String}

/-- A custom field is no column, and its route is its own name. -/
theorem of_ofField_custom (h : Route.ofField field = .ok (.custom name)) :
    NodeColumn.ofField? field = none ∧ name = field := by
  unfold Route.ofField at h
  -- Every branch but the last leads elsewhere.
  by_cases hparent : parentMark.isPrefixOf field.toList = true
  · rw [if_pos hparent] at h
    split at h
    · exact absurd h (by simp)
    · split at h <;> exact absurd h (by simp)
  · rw [if_neg hparent] at h
    cases hcolumn : NodeColumn.ofField? field with
    | some c =>
      rw [hcolumn] at h
      exact absurd h (by simp)
    | none =>
      rw [hcolumn] at h
      dsimp only at h
      split at h
      · exact absurd h (by simp)
      · exact ⟨rfl, (Route.custom.inj (Except.ok.inj h)).symm⟩

end Route

/-- The condition that a field has a value. -/
def Entry.hasValue (field value : String) : Entry := .clause (.equalTo field (.text value))

/-- The values of a field are those of its rows that hold something. -/
theorem Store.some_mem_entriesOf {store : Store} {id : Option String} {field value : String} :
    some value ∈ store.entriesOf id field ↔ value ∈ store.valuesOf id field := by
  unfold Store.entriesOf Store.valuesOf
  simp only [List.mem_map, List.mem_filterMap]

section

variable {field name value : String}

theorem isDateField_of_custom (hroute : Route.ofField field = .ok (.custom name)) :
    isDateField field = false := by
  unfold isDateField
  rw [(Route.of_ofField_custom hroute).1]

/-- A text that does not look like a date stays what it is. -/
theorem Clause.resolve_equalTo_text (hroute : Route.ofField field = .ok (.custom name))
    (hdate : Moment.looksLikeDate value = false) (now : Int) :
    (Clause.equalTo field (.text value)).resolve now = .ok (.equalTo field (.text value)) := by
  refine resolve_eq_self (.inr ⟨isDateField_of_custom hroute, fun s hs => ?_⟩) now
  obtain rfl := Operand.text.inj hs
  exact hdate

/-- A text that looks like a date becomes a point in time. -/
theorem Clause.resolve_equalTo_date (hroute : Route.ofField field = .ok (.custom name))
    (hdate : Moment.looksLikeDate value = true) {now : Int} {ms : Int64}
    (hms : Moment.ofText now value = .ok ms) :
    (Clause.equalTo field (.text value)).resolve now = .ok (.equalTo field (.integer ms)) := by
  unfold Clause.resolve Clause.equalTo Clause.plain
  simp only [Operator.isExistenceTest, isDateField_of_custom hroute, hdate, hms,
    Bool.false_eq_true, if_false, if_true]
  rfl

/-- The condition is true of the nodes that have the value in some row. -/
theorem Clause.truth_equalTo_text (hroute : Route.ofField field = .ok (.custom name))
    (view : NodeView) : (Clause.equalTo field (.text value)).truth view = some true ↔
      value ∈ view.values field := by
  obtain ⟨-, rfl⟩ := Route.of_ofField_custom hroute
  have hpositive : (Clause.equalTo name (.text value)).positiveTruth view
      = some ((view.values name).any fun s => Comparison.equal.holds (Datum.textOrder s value)) :=
    Clause.positiveTruth_custom hroute rfl
  show (Clause.equalTo name (.text value)).positiveTruth view = _ ↔ _
  rw [hpositive, Option.some.injEq, List.any_eq_true]
  simp only [Comparison.equal_holds_textOrder, exists_eq_right]

/-- Along a custom field the keys of a node are its values, that of nodes without a value aside. -/
theorem Dimension.mem_keysOf_custom {store : Store} {r : NodeRow}
    (hroute : Route.ofField field = .ok (.custom name)) (hkey : value ≠ noneKey) :
    value ∈ (Dimension.field field).keysOf store r ↔ value ∈ (store.view r).values field := by
  obtain ⟨-, rfl⟩ := Route.of_ofField_custom hroute
  have hvalues : some value ∈ store.entriesOf r.id name ↔ value ∈ (store.view r).values name :=
    Store.some_mem_entriesOf
  rw [Dimension.mem_keysOf, Dimension.values_of_custom hroute, ← hvalues]
  constructor
  · rintro (⟨v, hv, hvalue⟩ | ⟨-, hnone⟩)
    · cases v with
      | none => exact absurd hvalue.symm hkey
      | some s => exact hvalue ▸ hv
    · exact absurd hnone hkey
  · exact fun h => Or.inl ⟨some value, h, rfl⟩

end

/-! ### One more condition -/

namespace JoinSet.Distinct

variable {s : JoinSet}

theorem nodup (hs : s.Distinct) : s.joins.Nodup := List.Nodup.of_map _ hs

/-- A set whose joins are all listed is no larger than the list. -/
theorem size_le (hs : s.Distinct) {js : List Join} (hsub : s.joins ⊆ js) : s.size ≤ js.length :=
  (List.subperm_of_subset hs.nodup hsub).length_le

end JoinSet.Distinct

/-- One more condition on a field can be compiled and brings in one join. -/
theorem Filter.exists_of_append_hasValue {es : List Entry} {f : Filter} {field name : String}
    (hroute : Route.ofField field = .ok (.custom name)) (h : Filter.ofEntries es = .ok f)
    (value : String) : ∃ f' j,
      Filter.ofEntries (es ++ [.hasValue field value]) = .ok f' ∧
        ∀ i ∈ f'.joins.joins, i ∈ f.joins.joins ∨ i = j := by
  obtain ⟨fs, k, hfs, rfl⟩ := yields_of_ofEntries h
  set j : Join := fieldJoin (.fieldValue defaultStem k) name
  obtain ⟨g, hg, hgjoins⟩ : ∃ g, Yields ((Entry.hasValue field value).filter defaultStem false)
      k g (k + 1) ∧ g.joins.joins = [j] := by
    have hbecomes : Clause.Becomes defaultStem (.equalTo field (.text value)) false k _ (k + 1) :=
      .field name _ hroute rfl rfl
    exact ⟨_, yields_bind.mpr ⟨_, _, hbecomes.yields, yields_pure.mpr ⟨rfl, rfl⟩⟩, rfl⟩
  have hlast : Yields (Entry.filters defaultStem false [.hasValue field value]) k [g] (k + 1) :=
    Entry.yields_singleton hg
  refine ⟨_, j, ofEntries_of_yields (Entry.yields_append hfs hlast), fun i hi => ?_⟩
  -- The filter comes last, with a number of its own, so that its join is the only new one.
  have hall : all (fs ++ [g]) = (all fs).and g := List.foldl_concat _ _ _ _
  have hdrawn : Drawn defaultStem 0 k (all fs) :=
    Entry.drawn_all (fun e _ => e.drawn_of_yields) hfs
  rw [hall, mem_and_iff hdrawn (Entry.drawn_of_yields _ hg), hgjoins, List.mem_singleton] at hi
  exact hi

namespace Selection

variable {store : Store} {r : NodeRow} {find field name value : String} {es : List Entry}
  {s : Selection}

/-- A condition on the value of a field is met by the nodes that have the value. -/
theorem selects_append_hasValue (hroute : Route.ofField field = .ok (.custom name)) :
    store.selects find (es ++ [.hasValue field value]) r = true ↔
      store.selects find es r = true ∧ value ∈ (store.view r).values field := by
  rw [← Clause.truth_equalTo_text hroute]
  unfold Store.selects
  rw [Entry.splitTruths_append, List.all_append, ← Bool.and_assoc, Bool.and_eq_true (_ && _)]
  refine and_congr_right fun _ => ?_
  show ((Clause.equalTo field (.text value)).truth (store.view r) == some true && true) = true ↔ _
  rw [Bool.and_true, beq_iff_eq]

/-- One more condition on a field brings in one more join at most. -/
theorem exists_of_append_hasValue (hroute : Route.ofField field = .ok (.custom name))
    (h : Selection.of find es = .ok s) (value : String) : ∃ s',
      Selection.of find (es ++ [.hasValue field value]) = .ok s' ∧
        s'.joins.size ≤ s.joins.size + 1 := by
  obtain ⟨f, hf, -, -, hjoins⟩ := Selection.joins_of h
  obtain ⟨f', j, hf', hnew⟩ := Filter.exists_of_append_hasValue hroute hf value
  obtain ⟨s', hs'⟩ : ∃ s', Selection.of find (es ++ [.hasValue field value]) = .ok s' :=
    ⟨_, Selection.of_eq_ok_iff.mpr ⟨f', hf', rfl⟩⟩
  obtain ⟨f'', hf'', -, -, hjoins'⟩ := Selection.joins_of hs'
  obtain rfl := Except.ok.inj (hf'.symm.trans hf'')
  have hsub : s'.joins.joins ⊆ s.joins.joins ++ [j] := by
    intro i hi
    rw [List.mem_append, List.mem_singleton, hjoins]
    rcases (hjoins' i).mp hi with hi | hi
    · exact Or.inl (Or.inl hi)
    · exact (hnew i hi).imp_left Or.inr
  have hle := (JoinSet.arranged_of_selection hs').distinct.size_le hsub
  rw [List.length_append, List.length_singleton] at hle
  exact ⟨s', hs', hle⟩

end Selection

/-! ### Joins of an aggregation along a custom field -/

/-- A dimension along a custom field brings in a join of its own. -/
theorem Aggregation.size_joins_of_custom {a : Aggregation} {s : GroupStatement}
    {field name : String} (h : a.statement = .ok s) (hone : a.dimensions = [.field field])
    (hroute : Route.ofField field = .ok (.custom name)) :
    ∃ selection, Selection.of a.find a.conditions = .ok selection ∧
      selection.joins.size + 1 ≤ s.selection.joins.size := by
  obtain ⟨selection, keys, joins, hparts, rfl⟩ := Aggregation.exists_parts h
  refine ⟨selection, hparts.selected, ?_⟩
  obtain ⟨key, hkey, hbecomes⟩ : ∃ key ∈ keys, Dimension.Becomes 0 (.field field) key := by
    have hbecome := hparts.become
    rw [hone] at hbecome
    cases hbecome with
    | cons hkey _ => exact ⟨_, List.mem_cons_self, hkey⟩
  -- The join of the dimension has an alias that no condition takes.
  have hown : ∃ j ∈ key.joins, j.key? = (Alias.dimension 0).joinKey? := by
    cases hbecomes with
    | custom f hroute' => exact ⟨_, List.mem_singleton_self _, rfl⟩
    | column c hroute' => exact absurd (hroute.symm.trans hroute') (by simp)
    | parentName hroute' => exact absurd (hroute.symm.trans hroute') (by simp)
    | parentTags hroute' => exact absurd (hroute.symm.trans hroute') (by simp)
  obtain ⟨j, hj, hjkey⟩ := hown
  have hnew : j ∉ selection.joins.joins :=
    fun hmem => (hparts.arranged.joins j hmem).key?_ne hjkey
  have hnodup : (j :: selection.joins.joins).Nodup :=
    List.nodup_cons.mpr ⟨hnew, hparts.arranged.distinct.nodup⟩
  have hsub : j :: selection.joins.joins ⊆ joins.joins := by
    rw [List.cons_subset]
    refine ⟨(hparts.mem_joins j).mpr (Or.inr ⟨key, hkey, hj⟩), ?_⟩
    exact fun i hi => (hparts.mem_joins i).mpr (Or.inl hi)
  exact (List.subperm_of_subset hnodup hsub).length_le

/-! ### Members of groups -/

namespace Aggregation

variable {db : Database} {store : Store} {a : Aggregation} {now : Int} {tally : Tally}

/-- The statement of an aggregation that is answered is accepted. -/
theorem exists_statement_of_run {es : List Entry} (hes : Entry.resolveAll now a.conditions = .ok es)
    (hrun : a.run db now = .ok tally) : ∃ s, ({ a with conditions := es } : Aggregation).statement
      = .ok s ∧ (Statement.groups s).IsAccepted := by
  unfold Aggregation.run Aggregation.plan at hrun
  simp only [bind_eq_ok_iff, mapError_eq_ok_iff] at hrun
  obtain ⟨p, ⟨⟨⟩, -, a', hresolve, s, hs, hp⟩, store, hfor, -⟩ := hrun
  obtain rfl := Except.ok.inj hp
  obtain ⟨es', hes', rfl⟩ := resolve_eq_ok_iff.mp hresolve
  obtain rfl := Except.ok.inj (hes.symm.trans hes')
  exact ⟨s, hs, Query.isAccepted_of_storeFor hfor⟩

/-- The nodes that are selected with one more condition on a custom field are those that have the
value among their keys. -/
theorem selected_append_hasValue {find field name key : String} {es : List Entry}
    (hroute : Route.ofField field = .ok (.custom name)) (hkey : key ≠ noneKey) :
    store.selected find (es ++ [.hasValue field key])
      = (store.selected find es).filter
          fun r => [key] ∈ Dimension.keyLists store r [.field field] := by
  unfold Store.selected
  rw [List.filter_filter]
  refine List.filter_congr fun r _ => ?_
  have hmem : [key] ∈ Dimension.keyLists store r [.field field] ↔
      key ∈ (store.view r).values field := by
    rw [Dimension.mem_keyLists_cons, ← Dimension.mem_keysOf_custom hroute hkey]
    simp [Dimension.mem_keyLists_nil]
  rw [Bool.eq_iff_iff, Selection.selects_append_hasValue hroute, Bool.and_eq_true,
    decide_eq_true_eq, hmem, and_comm]

/-- **Members of a group** can be asked for. Along a custom field each group that an aggregation
shows, but for that of nodes without a value, counts as many nodes as the query finds that has the
conditions of the aggregation and asks besides that the field equals the key, if the key does not
look like a date and nothing is cut off. The query joins no more tables than one statement can. -/
theorem group_members (hstore : db.store = .ok store) (hkeyed : store.Keyed) {field name : String}
    (hone : a.dimensions = [.field field]) (hroute : Route.ofField field = .ok (.custom name))
    (hrun : a.run db now = .ok tally) (hshown : a.ShowsAll tally) {key : String} {n : Int}
    (hgroup : ([key], n) ∈ tally.groups.entries) (hkey : key ≠ noneKey)
    (hdate : Moment.looksLikeDate key = false) {q : Query} {term : SortTerm}
    (hfind : q.find = a.find) (hconditions : q.conditions = a.conditions ++ [.hasValue field key])
    (hoffset : q.offset = 0) (hlimit : (store.nodes.length : Int) < q.limit.toInt)
    (hterm : SortTerm.ofField q.sortKey.field = .ok term) :
    q.Finds db store now n ∧
      ∀ s, q.plan now = .ok s → s.selection.joins.size + 1 ≤ tableLimit := by
  obtain ⟨es, hes, -, hgroups⟩ := exists_counts hstore hkeyed hrun hshown
  obtain ⟨s, hs, haccepted⟩ := exists_statement_of_run hes hrun
  obtain ⟨selection, hselection, hsize⟩ := size_joins_of_custom hs hone hroute
  obtain ⟨selection', hselection', hsize'⟩ :=
    Selection.exists_of_append_hasValue hroute hselection key
  have hcount : (selection'.count store : Int) = n := by
    rw [count_eq_length_selected hkeyed hselection', selected_append_hasValue hroute hkey, ← hone]
    exact ((hgroups.mem_iff [key] n).mp hgroup).1.symm
  have hlast : Entry.resolveAll now [.hasValue field key] = .ok [.hasValue field key] := by
    unfold Entry.resolveAll Entry.hasValue
    rw [Entry.mapClausesAll, Entry.mapClauses, Clause.resolve_equalTo_text hroute hdate]
    rfl
  have hes' : Entry.resolveAll now q.conditions = .ok (es ++ [.hasValue field key]) := by
    rw [hconditions]
    exact Entry.mapClausesAll_append hes hlast
  have htarget : checkTarget q.find = .ok () := by
    rw [hfind]
    exact (exists_total hrun).1
  rw [← hfind] at hselection'
  have hplan := Query.plan_of_selection htarget hes' hselection' hoffset hlimit hterm
  constructor
  · have hfinds := Query.finds_of_plan hstore hkeyed hplan hoffset hlimit
    rwa [← hcount]
  · -- The aggregation joins a row for the field as well.
    intro s' hs'
    obtain rfl := Except.ok.inj (hplan.symm.trans hs')
    have htables : s.selection.joins.size + 1 ≤ tableLimit := haccepted.tables
    show selection'.joins.size + 1 ≤ tableLimit
    omega

/-- Nothing is cut off where the statement has no more groups than may be shown. -/
theorem showsAll_of_length_le {es : List Entry} {s : GroupStatement}
    (hstore : db.store = .ok store) (hrun : a.run db now = .ok tally)
    (hes : Entry.resolveAll now a.conditions = .ok es)
    (hs : ({ a with conditions := es } : Aggregation).statement = .ok s)
    (hle : ((s.groups store).length : Int) ≤ a.cap.toInt) (hcap : a.cap ≠ Int64.maxValue) :
    a.ShowsAll tally := by
  refine ⟨?_, fun h => absurd h hcap⟩
  obtain ⟨-, es', s', _, hes', hs', -, rfl⟩ := exists_answer hstore hrun
  obtain rfl := Except.ok.inj (hes.symm.trans hes')
  obtain rfl := Except.ok.inj (hs.symm.trans hs')
  have hanswer := GroupStatement.length_answer_le store s
  apply Tally.truncatedAt_ofRows
  show _ ≤ a.cap.toInt
  omega

/-- The open tasks of the sample are as many as are counted under "open". -/
theorem group_members_sample : ∃ tally page,
    sampleAggregation.run ⟨some sampleStore⟩ 0 = .ok tally ∧
    (["open"], 1) ∈ tally.groups.entries ∧
    ({ Query.forTarget "task" with conditions := [.hasValue "status" "open"] } : Query).run
      ⟨some sampleStore⟩ (Database.fieldResolver ⟨some sampleStore⟩) 0 = .ok page ∧
    page.nodes.length = 1 := by
  have hstore : (⟨some sampleStore⟩ : Database).store = .ok sampleStore := rfl
  obtain ⟨tally, hrun⟩ : ∃ tally, sampleAggregation.run ⟨some sampleStore⟩ 0 = .ok tally :=
    ⟨_, rfl⟩
  obtain ⟨s, hs, hgroups⟩ : ∃ s, sampleAggregation.statement = .ok s ∧
      (s.groups sampleStore).length = 2 := ⟨_, rfl, by decide⟩
  have hshown : sampleAggregation.ShowsAll tally :=
    showsAll_of_length_le hstore hrun rfl hs (by rw [hgroups]; decide) (by decide)
  obtain ⟨es, hes, -, hcounts⟩ := exists_counts hstore keyed_sampleStore hrun hshown
  obtain rfl := Except.ok.inj hes
  have hgroup : (["open"], 1) ∈ tally.groups.entries :=
    (hcounts.mem_iff _ _).mpr ⟨by decide, by decide⟩
  obtain ⟨⟨s, hplan, -, hquery⟩, -⟩ := group_members
    (q := { Query.forTarget "task" with conditions := [.hasValue "status" "open"] })
    hstore keyed_sampleStore rfl rfl hrun hshown hgroup (by decide) (by decide +kernel) rfl rfl rfl
    (by decide) rfl
  have haccepted : (Statement.page s).IsAccepted := by
    obtain rfl := Except.ok.inj (hplan.symm.trans rfl)
    decide
  obtain ⟨page, hpage, hlength⟩ :=
    hquery Query.wellTyped_sampleStore haccepted (Query.selectsFew_of_none rfl _)
  exact ⟨tally, page, hrun, hgroup, hpage, by exact_mod_cast hlength⟩

/-- A draft with a date in a field. -/
def datedStore : Store where
  nodes := [⟨"n1", "Draft", none, none, .integer 1, .null, .null⟩]
  tags := []
  fields := [⟨"n1", "due", "2024-01-01", .integer 0⟩]

theorem wellTyped_datedStore : datedStore.WellTyped where
  keyed := ⟨by decide, by decide⟩
  dates := by
    intro r hr k hk
    rw [List.mem_singleton.mp hr]
    cases k <;> trivial
  size := by decide

/-- All nodes by the values of a field. -/
def datedAggregation : Aggregation := .along anyNode [.field "due"]

/-- A written date is counted as a text, but a condition compares the field with a point in time:
the group has a member that no query for its key finds. -/
theorem not_group_members_dated : datedStore.WellTyped ∧
    Route.ofField "due" = .ok (.custom "due") ∧ "2024-01-01" ≠ noneKey ∧
    ∃ tally page, datedAggregation.run ⟨some datedStore⟩ 0 = .ok tally ∧
      datedAggregation.ShowsAll tally ∧ (["2024-01-01"], 1) ∈ tally.groups.entries ∧
      ({ Query.forTarget anyNode with conditions := [.hasValue "due" "2024-01-01"] } : Query).run
        ⟨some datedStore⟩ (Database.fieldResolver ⟨some datedStore⟩) 0 = .ok page ∧
      page.nodes.length = 0 := by
  have hstore : (⟨some datedStore⟩ : Database).store = .ok datedStore := rfl
  have htyped := wellTyped_datedStore
  obtain ⟨tally, hrun⟩ : ∃ tally, datedAggregation.run ⟨some datedStore⟩ 0 = .ok tally :=
    ⟨_, rfl⟩
  obtain ⟨s, hs, hgroups⟩ : ∃ s, datedAggregation.statement = .ok s ∧
      (s.groups datedStore).length = 1 := ⟨_, rfl, by decide⟩
  have hshown : datedAggregation.ShowsAll tally :=
    showsAll_of_length_le hstore hrun rfl hs (by rw [hgroups]; decide) (by decide)
  obtain ⟨es, hes, -, hcounts⟩ := exists_counts hstore htyped.keyed hrun hshown
  obtain rfl := Except.ok.inj hes
  have hgroup : (["2024-01-01"], 1) ∈ tally.groups.entries :=
    (hcounts.mem_iff _ _).mpr ⟨by decide, by decide⟩
  have hms : Moment.ofText 0 "2024-01-01" = .ok 1704067200000 :=
    eq_ok_of_toOption_eq_some (by decide +kernel)
  have hresolved : Entry.resolveAll 0 [.hasValue "due" "2024-01-01"]
      = .ok [.clause (.equalTo "due" (.integer 1704067200000))] := by
    unfold Entry.resolveAll Entry.hasValue
    rw [Entry.mapClausesAll, Entry.mapClauses, Clause.resolve_equalTo_date rfl (by decide +kernel)
      hms]
    rfl
  obtain ⟨selection, hselection, haccepted, hcount⟩ : ∃ selection : Selection,
      Selection.of anyNode [.clause (.equalTo "due" (.integer 1704067200000))] = .ok selection ∧
      (Statement.page ⟨selection, .column .created, true, 100, 0⟩).IsAccepted ∧
      selection.count datedStore = 0 :=
    ⟨_, rfl, by decide, by decide⟩
  have hlimit : (datedStore.nodes.length : Int) < (100 : Int64).toInt := by decide
  have hterm : SortTerm.ofField "created" = .ok (.column .created) := rfl
  have hplan := Query.plan_of_selection
    (q := { Query.forTarget anyNode with conditions := [.hasValue "due" "2024-01-01"] })
    rfl hresolved hselection rfl hlimit hterm
  obtain ⟨s, hs, -, hpage⟩ := Query.finds_of_plan hstore htyped.keyed hplan rfl hlimit
  obtain rfl := Except.ok.inj (hplan.symm.trans hs)
  obtain ⟨page, hpage, hlength⟩ := hpage htyped haccepted (Query.selectsFew_of_none rfl _)
  rw [hcount] at hlength
  exact ⟨htyped, rfl, by decide, tally, page, hrun, hshown, hgroup, hpage,
    by exact_mod_cast hlength⟩

end Aggregation

end GraphIndex
