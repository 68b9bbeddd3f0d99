import GraphIndex.Engine.Groups
import GraphIndex.Proofs.Engine.Paging
import GraphIndex.Proofs.Plan.Dimensions
import GraphIndex.Proofs.Statement.Limits

/-!
# Totals of aggregations

The total of an aggregation is the number of nodes that a query with the same target and the same
conditions finds (`Aggregation.total_agrees`), whatever the nodes are grouped by. A query binds one
value more than an aggregation can do, so that its statement may be refused where nodes are counted
(`Aggregation.not_total_agrees_many`).
-/

namespace GraphIndex

open Piece

/-! ### Counting nodes by their ids -/

/-- In a keyed store there are as many ids as nodes. -/
theorem countIds_eq_length {store : Store} (hkeyed : store.Keyed) {rows : List NodeRow}
    (hrows : rows ⊆ store.nodes) : countIds rows = (distinct rows).length := by
  have hids : ((distinct rows).map NodeRow.id).Nodup := by
    refine (nodup_distinct rows).map_on fun r hr r' hr' => ?_
    exact hkeyed.eq_of_id_eq (hrows (mem_distinct.mp hr)) (hrows (mem_distinct.mp hr'))
  have htexts : ((distinct (rows.filterMap NodeRow.id)).map some).Nodup :=
    (nodup_distinct _).map (Option.some_injective _)
  -- Both lists have the same members and repeat none.
  have hperm : ((distinct (rows.filterMap NodeRow.id)).map some).Perm
      ((distinct rows).map NodeRow.id) := by
    refine (List.perm_ext_iff_of_nodup htexts hids).mpr fun id => ?_
    simp only [List.mem_map, mem_distinct, List.mem_filterMap]
    constructor
    · rintro ⟨s, ⟨r, hr, hs⟩, rfl⟩
      exact ⟨r, hr, hs⟩
    · rintro ⟨r, hr, rfl⟩
      obtain ⟨s, hs⟩ := Option.isSome_iff_exists.mp (hkeyed.isSome r (hrows hr))
      exact ⟨s, ⟨r, hr, hs⟩, hs.symm⟩
  have hlength := hperm.length_eq
  rw [List.length_map, List.length_map] at hlength
  exact hlength

theorem Selection.count_eq_length {store : Store} (hkeyed : store.Keyed) (s : Selection) :
    s.count store = (distinct (s.nodes store)).length :=
  countIds_eq_length hkeyed fun _ hr => (Selection.mem_nodes.mp hr).1

theorem PageStatement.length_nodes (store : Store) (s : PageStatement) :
    (s.nodes store).length = (distinct (s.selection.nodes store)).length :=
  List.length_mergeSort _

/-- A limit above the number of all nodes cuts off nothing. -/
theorem PageStatement.page_eq_nodes {store : Store} {s : PageStatement} (hoffset : s.offset = 0)
    (hlimit : (store.nodes.length : Int) < s.limit.toInt) : s.page store = s.nodes store := by
  unfold PageStatement.page
  rw [hoffset, Int64.toInt_zero, Int.toNat_zero, List.drop_zero, List.take_of_length_le]
  have hle := PageStatement.length_nodes_le store s
  omega

/-! ### Queries that find as many nodes as are counted -/

/-- A query finds so many nodes: its statement answers as many rows, and the query shows as many
nodes if their dates can be read, the statement is accepted and few fields are selected. -/
def Query.Finds (q : Query) (db : Database) (store : Store) (now : Int) (n : Int) : Prop :=
  ∃ s, q.plan now = .ok s ∧ ((s.page store).length : Int) = n ∧
    (store.WellTyped → (Statement.page s).IsAccepted → q.SelectsFew store →
      ∃ page, q.run db db.fieldResolver now = .ok page ∧ (page.nodes.length : Int) = n)

namespace Query

variable {db : Database} {store : Store} {q : Query} {now : Int}

/-- The statement of a query with a limit above the number of all nodes. -/
theorem plan_of_selection {es : List Entry} {term : SortTerm} {selection : Selection}
    (htarget : checkTarget q.find = .ok ()) (hes : Entry.resolveAll now q.conditions = .ok es)
    (hselection : Selection.of q.find es = .ok selection) (hoffset : q.offset = 0)
    (hlimit : (store.nodes.length : Int) < q.limit.toInt)
    (hterm : SortTerm.ofField q.sortKey.field = .ok term) :
    q.plan now = .ok ⟨selection, term, q.sortKey.descending, q.limit, q.offset⟩ := by
  have hcheck : q.check = .ok () := by
    refine Query.check_eq_ok_iff.mpr ⟨htarget, ?_, ?_⟩
    · unfold checkLimit
      rw [if_neg]
      rw [Int64.not_lt, Int64.le_iff_toInt_le]
      show (1 : Int) ≤ _
      omega
    · rw [hoffset]
      decide
  refine Query.plan_eq_ok_iff.mpr ⟨hcheck, _, Query.resolve_eq_ok_iff.mpr ⟨es, hes, rfl⟩, ?_⟩
  exact Query.statement_eq_ok_iff.mpr ⟨hselection, hterm, rfl, rfl, rfl⟩

/-- A query that cuts nothing off finds as many nodes as its selection has. -/
theorem finds_of_plan (hstore : db.store = .ok store) (hkeyed : store.Keyed) {s : PageStatement}
    (hplan : q.plan now = .ok s) (hoffset : s.offset = 0)
    (hlimit : (store.nodes.length : Int) < s.limit.toInt) :
    q.Finds db store now (s.selection.count store) := by
  have hlength : (s.page store).length = s.selection.count store := by
    rw [PageStatement.page_eq_nodes hoffset hlimit, PageStatement.length_nodes,
      Selection.count_eq_length hkeyed]
  refine ⟨s, hplan, congrArg Int.ofNat hlength, fun htyped haccepted hfew => ?_⟩
  obtain ⟨page, hrun, hshows⟩ := exists_run hstore htyped hplan haccepted hfew
  have hrows := Node.length_of_ofRows hshows.nodes
  rw [List.length_map] at hrows
  exact ⟨page, hrun, congrArg Int.ofNat (hrows.trans hlength)⟩

end Query

/-! ### Totals -/

namespace Aggregation

variable {db : Database} {store : Store} {a b : Aggregation} {now : Int} {tally : Tally}

theorem resolve_eq_ok_iff {a' : Aggregation} :
    a.resolve now = .ok a' ↔ ∃ es, Entry.resolveAll now a.conditions = .ok es
      ∧ a' = { a with conditions := es } := by
  rw [Aggregation.resolve, bind_eq_ok_iff]
  refine exists_congr fun es => and_congr_right fun _ => ?_
  exact ⟨fun h => (Except.ok.inj h).symm, fun h => congrArg Except.ok h.symm⟩

theorem checkTarget_of_check (h : a.check = .ok ()) : checkTarget a.find = .ok () := by
  unfold Aggregation.check at h
  obtain ⟨⟨⟩, htarget, -⟩ := bind_eq_ok_iff.mp h
  exact htarget

/-- A total is counted if its statement is accepted. -/
theorem total_eq_ok_iff (hstore : db.store = .ok store) {find : String} {es : List Entry}
    {n : Nat} : Aggregation.total db find es = .ok n ↔ ∃ s, Selection.of find es = .ok s
      ∧ (Statement.count s).IsAccepted ∧ n = s.count store := by
  unfold Aggregation.total
  simp only [bind_eq_ok_iff, mapError_eq_ok_iff]
  refine exists_congr fun s => and_congr_right fun _ => ?_
  constructor
  · rintro ⟨store', hfor, hn⟩
    obtain rfl := Query.eq_of_storeFor hstore hfor
    exact ⟨Query.isAccepted_of_storeFor hfor, (Except.ok.inj hn).symm⟩
  · rintro ⟨haccepted, rfl⟩
    exact ⟨store, Query.storeFor_of_isAccepted hstore haccepted, rfl⟩

theorem plan_eq_ok_iff {s : GroupStatement} : a.plan now = .ok (b, s) ↔ a.check = .ok () ∧
    ∃ es, Entry.resolveAll now a.conditions = .ok es ∧ b = { a with conditions := es } ∧
      b.statement = .ok s := by
  unfold Aggregation.plan
  simp only [bind_eq_ok_iff, mapError_eq_ok_iff, resolve_eq_ok_iff]
  constructor
  · rintro ⟨⟨⟩, hcheck, -, ⟨es, hes, rfl⟩, s', hs', hpure⟩
    obtain ⟨rfl, rfl⟩ := Prod.mk.inj (Except.ok.inj hpure)
    exact ⟨hcheck, es, hes, rfl, hs'⟩
  · rintro ⟨hcheck, es, hes, rfl, hs⟩
    exact ⟨(), hcheck, _, ⟨es, hes, rfl⟩, s, hs, rfl⟩

/-- An aggregation is answered if the statement for its groups is accepted: the statement for the
total is smaller. -/
theorem exists_run {s : GroupStatement} (hstore : db.store = .ok store)
    (hplan : a.plan now = .ok (b, s)) (haccepted : (Statement.groups s).IsAccepted) :
    ∃ n, a.run db now = .ok (.ofRows a n (s.answer store)) := by
  obtain ⟨-, es, -, rfl, hs⟩ := plan_eq_ok_iff.mp hplan
  obtain ⟨selection, keys, hselection, -, rfl⟩ := exists_of_statement hs
  have htotal := (total_eq_ok_iff hstore).mpr
    ⟨selection, hselection, haccepted.count rfl (JoinSet.prefix_insertAll _ _), rfl⟩
  refine ⟨selection.count store, ?_⟩
  unfold Aggregation.run
  rw [hplan]
  show (db.storeFor _ >>= _) = _
  rw [Query.storeFor_of_isAccepted hstore haccepted]
  show (Aggregation.total db a.find es >>= _) = _
  rw [htotal]
  rfl

theorem run_eq_error {s : GroupStatement} (hstore : db.store = .ok store)
    (hplan : a.plan now = .ok (b, s)) (hlimit : ¬ (Statement.groups s).IsPrepared) :
    a.run db now = .error .storage := by
  unfold Aggregation.run
  rw [hplan]
  show (db.storeFor (.groups s) >>= _) = _
  rw [Query.storeFor_eq_error hstore hlimit]
  rfl

/-- The key of a period is made of a column: it joins nothing and binds nothing. -/
theorem statement_by_period {p : Period} {column : DateColumn}
    (ha : a.dimensions = [.period p column]) {selection : Selection}
    (hselection : Selection.of a.find a.conditions = .ok selection) :
    a.statement = .ok ⟨selection, [.orText (p.expr column) noneKey], successor a.cap⟩ := by
  unfold Aggregation.statement
  rw [hselection, ha]
  rfl

theorem length_values_by_period (selection : Selection) (p : Period) (column : DateColumn)
    (limit : Int64) :
    (Statement.groups ⟨selection, [.orText (p.expr column) noneKey], limit⟩).values.length
      = selection.values.length + 1 := by
  have hkeys : valuesOf (GroupStatement.keyPieces 0 [.orText (p.expr column) noneKey]) = [] := by
    cases p <;> rfl
  show (GroupStatement.values ⟨selection, _, limit⟩).length = _
  rw [GroupStatement.length_values, hkeys, List.length_nil, Nat.zero_add]

/-- The total of a tally counts the nodes of the target that meet the settled conditions; the
dimensions and the limits do not come in. -/
theorem exists_total (hrun : a.run db now = .ok tally) :
    checkTarget a.find = .ok () ∧ ∃ es n, Entry.resolveAll now a.conditions = .ok es ∧
      Aggregation.total db a.find es = .ok n ∧ tally.total = n := by
  unfold Aggregation.run Aggregation.plan at hrun
  simp only [bind_eq_ok_iff, mapError_eq_ok_iff] at hrun
  obtain ⟨p, ⟨⟨⟩, hcheck, a', hresolve, statement, -, hp⟩, store, -, n, hn, htally⟩ := hrun
  obtain rfl := Except.ok.inj hp
  obtain rfl := Except.ok.inj htally
  obtain ⟨es, hes, rfl⟩ := resolve_eq_ok_iff.mp hresolve
  exact ⟨checkTarget_of_check hcheck, es, n, hes, hn, rfl⟩

/-- **The two engines agree on what matches.** Where an aggregation is answered, its total is the
number of nodes that any query with its target and conditions finds, if the limit of the query is
above the number of all nodes; the total does not depend on how and how far nodes are grouped; and
without conditions it is the number of nodes that carry the tag. -/
theorem total_agrees (hstore : db.store = .ok store) (hkeyed : store.Keyed)
    (hrun : a.run db now = .ok tally) :
    (∀ (q : Query) (term : SortTerm), q.find = a.find → q.conditions = a.conditions →
      q.offset = 0 → (store.nodes.length : Int) < q.limit.toInt →
      SortTerm.ofField q.sortKey.field = .ok term → q.Finds db store now tally.total) ∧
    (∀ (a' : Aggregation) (tally' : Tally), a'.find = a.find → a'.conditions = a.conditions →
      a'.run db now = .ok tally' → tally'.total = tally.total) ∧
    (a.conditions = [] → ∃ n, db.countTag a.find = .ok n ∧ (n : Int) = tally.total) := by
  obtain ⟨htarget, es, n, hes, hn, htotal⟩ := exists_total hrun
  refine ⟨?_, ?_, ?_⟩
  · intro q term hfind hconditions hoffset hlimit hterm
    obtain ⟨selection, hselection, -, rfl⟩ := (total_eq_ok_iff hstore).mp hn
    rw [← hfind] at htarget hselection
    rw [← hconditions] at hes
    have hplan := Query.plan_of_selection htarget hes hselection hoffset hlimit hterm
    have hfinds := Query.finds_of_plan hstore hkeyed hplan hoffset hlimit
    rwa [htotal]
  · intro a' tally' hfind hconditions hrun'
    obtain ⟨-, es', n', hes', hn', htotal'⟩ := exists_total hrun'
    rw [hconditions, hes] at hes'
    obtain rfl := Except.ok.inj hes'
    rw [hfind, hn] at hn'
    rw [htotal', htotal, Except.ok.inj hn']
  · intro hconditions
    rw [hconditions] at hes
    obtain rfl := Except.ok.inj hes
    refine ⟨n, ?_, htotal.symm⟩
    unfold Database.countTag
    simp only [bind_eq_ok_iff, mapError_eq_ok_iff]
    exact ⟨(), htarget, hn⟩

/-- Tasks by the values of a field. -/
def sampleAggregation : Aggregation := .along "task" [.field "status"]

/-- The only task of the sample has two values of the field and is counted once. -/
theorem total_sample : ∃ tally page,
    sampleAggregation.run ⟨some sampleStore⟩ 0 = .ok tally ∧ tally.total = 1 ∧
    (Query.forTarget "task").run ⟨some sampleStore⟩ (Database.fieldResolver ⟨some sampleStore⟩) 0
      = .ok page ∧ (page.nodes.length : Int) = tally.total := by
  have hstore : (⟨some sampleStore⟩ : Database).store = .ok sampleStore := rfl
  obtain ⟨tally, hrun⟩ : ∃ tally, sampleAggregation.run ⟨some sampleStore⟩ 0 = .ok tally :=
    ⟨_, rfl⟩
  obtain ⟨hquery, -, hcount⟩ := total_agrees hstore keyed_sampleStore hrun
  obtain ⟨s, hplan, -, hpage⟩ :=
    hquery (Query.forTarget "task") _ rfl rfl rfl (by decide) rfl
  have hs : (Query.forTarget "task").plan 0
      = .ok ⟨⟨targetJoins "task", []⟩, .column .created, true, 100, 0⟩ := rfl
  obtain rfl := Except.ok.inj (hs.symm.trans hplan)
  obtain ⟨page, hpage, hlength⟩ :=
    hpage Query.wellTyped_sampleStore (by decide) (Query.selectsFew_of_none rfl _)
  obtain ⟨n, hn, htotal⟩ := hcount rfl
  have hone : Database.countTag ⟨some sampleStore⟩ "task" = .ok 1 := rfl
  obtain rfl : n = 1 := Except.ok.inj (hn.symm.trans hone)
  exact ⟨tally, page, hrun, htotal.symm, hpage, hlength⟩

/-! ### Many values -/

/-- The condition that the name is "Draft". -/
def nameIsDraft : Clause := .equalTo "name" (.text "Draft")

/-- As many conditions as there are values that a statement for groups can bind beside its limit, in
groups that keep the tree low. -/
def manyConditions : List Entry :=
  List.replicate 181 (.group .any (List.replicate 181 (.clause nameIsDraft)) false)
    ++ List.replicate 4 (.clause nameIsDraft)

/-- What the condition on the name becomes. -/
def draftCondition : Condition := .compare (nodeColumn .name) .equal (.bound (.text "Draft"))

/-- What the many conditions become. -/
def manyBuilt : List Condition :=
  List.replicate 181 (.group .any (List.replicate 181 draftCondition))
    ++ List.replicate 4 draftCondition

/-- The rows of the nodes that meet the many conditions. -/
def manySelection : Selection := ⟨.empty, manyBuilt⟩

theorem length_manyBuilt : manyBuilt.length = 185 := by
  rw [manyBuilt, List.length_append, List.length_replicate, List.length_replicate]

theorem forall_mem_manyBuilt {P : Condition → Prop} (hdraft : P draftCondition)
    (hgroup : P (.group .any (List.replicate 181 draftCondition))) : ∀ c ∈ manyBuilt, P c := by
  intro c hc
  rcases List.mem_append.mp hc with hc | hc
  · exact List.eq_of_mem_replicate hc ▸ hgroup
  · exact List.eq_of_mem_replicate hc ▸ hdraft

/-- The filter of the condition on the name. -/
def draftFilter : Filter := .of draftCondition []

/-- The filter of one group of the many conditions. -/
def draftGroupFilter : Filter := (Filter.all (List.replicate 181 draftFilter)).grouped .any

theorem yields_draftFilter :
    Yields ((Entry.clause nameIsDraft).filter Filter.defaultStem false) 0 draftFilter 0 := by
  have hbecomes : nameIsDraft.Becomes Filter.defaultStem false 0 draftFilter 0 := .column .name rfl
  exact yields_bind.mpr ⟨_, _, hbecomes.yields, yields_pure.mpr ⟨rfl, rfl⟩⟩

theorem conditions_draftGroupFilter :
    draftGroupFilter.conditions = [.group .any (List.replicate 181 draftCondition)] := by
  have hmembers : (Filter.all (List.replicate 181 draftFilter)).conditions
      = List.replicate 181 draftCondition := by
    rw [Filter.conditions_all, List.flatMap_replicate]
    exact List.flatten_replicate_singleton
  rw [draftGroupFilter, Filter.conditions_grouped, hmembers]
  rfl

/-- No condition on the name joins anything. -/
theorem joins_draftGroupFilter : draftGroupFilter.joins = .empty := by
  rw [draftGroupFilter, Filter.joins_grouped]
  exact Filter.joins_all_eq_empty fun f hf => by rw [List.eq_of_mem_replicate hf]; rfl

theorem selection_of_manyConditions :
    Selection.of anyNode manyConditions = .ok manySelection := by
  have hgroup : Yields ((Entry.group .any (List.replicate 181 (.clause nameIsDraft)) false).filter
      Filter.defaultStem false) 0 draftGroupFilter 0 :=
    Entry.yields_group_of_members (Entry.yields_filters_replicate yields_draftFilter 181) .any
  have hyields := Entry.yields_append (Entry.yields_filters_replicate hgroup 181)
    (Entry.yields_filters_replicate yields_draftFilter 4)
  refine Selection.of_eq_ok_iff.mpr ⟨_, Filter.ofEntries_of_yields hyields, ?_⟩
  have hjoins : (Filter.all (List.replicate 181 draftGroupFilter
      ++ List.replicate 4 draftFilter)).joins = .empty := by
    apply Filter.joins_all_eq_empty
    intro f hf
    rcases List.mem_append.mp hf with hf | hf
    · rw [List.eq_of_mem_replicate hf, joins_draftGroupFilter]
    · rw [List.eq_of_mem_replicate hf]
      rfl
  have hconditions : (Filter.all (List.replicate 181 draftGroupFilter
      ++ List.replicate 4 draftFilter)).conditions = manyBuilt := by
    rw [Filter.conditions_all, List.flatMap_append, List.flatMap_replicate, List.flatMap_replicate,
      conditions_draftGroupFilter]
    exact congrArg₂ _ List.flatten_replicate_singleton List.flatten_replicate_singleton
  rw [hjoins, hconditions]
  rfl

theorem length_values_manySelection : manySelection.values.length = 32765 := by
  have hdraft : (valuesOf draftCondition.pieces).length = 1 := rfl
  have hgroup : (valuesOf
      (Condition.group .any (List.replicate 181 draftCondition)).pieces).length = 181 := by
    rw [Condition.valuesOf_group, List.flatMap_replicate, List.length_flatten, List.map_replicate,
      List.sum_replicate_nat, hdraft]
  rw [Selection.values_of_joinless rfl, manySelection, manyBuilt, List.flatMap_append,
    List.length_append, List.flatMap_replicate, List.flatMap_replicate, List.length_flatten,
    List.length_flatten, List.map_replicate, List.map_replicate, List.sum_replicate_nat,
    List.sum_replicate_nat, hgroup, hdraft]

theorem height_manySelection_le : manySelection.height ≤ heightLimit := by
  have hgroup : chainHeight (Condition.heights (List.replicate 181 draftCondition)) ≤ 3 + 181 := by
    refine Nat.le_trans (Condition.chainHeight_heights_le (m := 3) fun c hc => ?_) ?_
    · rw [List.eq_of_mem_replicate hc]
      decide
    · rw [List.length_replicate]
  have hall : chainHeight (Condition.heights manyBuilt) ≤ 184 + manyBuilt.length :=
    Condition.chainHeight_heights_le (forall_mem_manyBuilt (by decide) hgroup)
  have hnested : Condition.nestedHeights manyBuilt = 0 := by
    refine Condition.nestedHeights_eq_zero (forall_mem_manyBuilt rfl ?_)
    exact Condition.nestedHeights_eq_zero fun c hc => by rw [List.eq_of_mem_replicate hc]; rfl
  rw [length_manyBuilt] at hall
  rw [Selection.height_of_joinless rfl, show manySelection.conditions = manyBuilt from rfl, hnested]
  exact Nat.le_trans hall (by decide)

theorem entries_manySelection_le : manySelection.entries ≤ stackLimit := by
  have hgroup : (Condition.group .any (List.replicate 181 draftCondition)).entries ≤ 6 := by
    have hmembers : chainEntries (Condition.listEntries (List.replicate 181 draftCondition))
        ≤ 3 + 2 := by
      refine Condition.chainEntries_listEntries_le fun c hc => ?_
      rw [List.eq_of_mem_replicate hc]
      decide
    rw [Condition.entries]
    omega
  have hall : chainEntries (Condition.listEntries manyBuilt) ≤ 6 + 2 :=
    Condition.chainEntries_listEntries_le (forall_mem_manyBuilt (by decide) hgroup)
  show chainEntries (Condition.listEntries manyBuilt) + 6 ≤ 100
  omega

theorem haveShortPatterns_manyBuilt : Condition.haveShortPatterns manyBuilt = true := by
  refine Condition.haveShortPatterns_eq_true (forall_mem_manyBuilt rfl ?_)
  exact Condition.haveShortPatterns_eq_true fun c hc => by rw [List.eq_of_mem_replicate hc]; rfl

/-- The nodes that meet the many conditions, by their names. -/
def manyAggregation : Aggregation :=
  { Aggregation.along anyNode [.field "name"] with conditions := manyConditions }

/-- The nodes that meet the many conditions. -/
def manyQuery : Query := { Query.forTarget anyNode with conditions := manyConditions }

theorem resolveAll_manyConditions :
    Entry.resolveAll 0 manyConditions = .ok manyConditions := by
  have hdraft : (Entry.clause nameIsDraft).mapClauses (Clause.resolve 0)
      = .ok (.clause nameIsDraft) := by
    rw [Entry.mapClauses, Clause.resolve_eq_self (.inr ⟨rfl, fun s hs => ?_⟩)]
    · rfl
    · obtain rfl := Operand.text.inj hs
      decide +kernel
  have hgroup : (Entry.group .any (List.replicate 181 (.clause nameIsDraft)) false).mapClauses
      (Clause.resolve 0) = .ok (.group .any (List.replicate 181 (.clause nameIsDraft)) false) := by
    rw [Entry.mapClauses, Entry.mapClausesAll_eq_self fun e he => ?_]
    · rfl
    · rw [List.eq_of_mem_replicate he, hdraft]
  refine Entry.mapClausesAll_eq_self fun e he => ?_
  rcases List.mem_append.mp he with he | he
  · rw [List.eq_of_mem_replicate he, hgroup]
  · rw [List.eq_of_mem_replicate he, hdraft]

theorem isAccepted_groups_many {g : GroupStatement} (hselection : g.selection = manySelection)
    (hkeys : valuesOf (GroupStatement.keyPieces 0 g.keys) = []) :
    (Statement.groups g).IsAccepted := by
  refine ⟨⟨?_, ?_, ?_, ?_⟩, ?_⟩
  · show g.selection.joins.size + 1 ≤ tableLimit
    rw [hselection]
    decide
  · show g.values.length ≤ bindingLimit
    rw [g.length_values, hselection, hkeys, length_values_manySelection]
    decide
  · show g.selection.height ≤ heightLimit
    rw [hselection]
    exact height_manySelection_le
  · show g.selection.entries ≤ stackLimit
    rw [hselection]
    exact entries_manySelection_le
  · show Condition.haveShortPatterns g.selection.conditions = true
    rw [hselection]
    exact haveShortPatterns_manyBuilt

theorem statement_manyAggregation : manyAggregation.statement
    = .ok ⟨manySelection, [.orText (.cast (nodeColumn .name) .text) noneKey], 101⟩ := by
  unfold Aggregation.statement
  rw [show Selection.of manyAggregation.find manyAggregation.conditions = _ from
    selection_of_manyConditions]
  rfl

/-- The many conditions are too many for a page. -/
theorem not_isPrepared_page_many {s : PageStatement} (h : s.selection = manySelection) :
    ¬ (Statement.page s).IsPrepared := by
  intro hprepared
  have hvalues : s.values.length ≤ bindingLimit := hprepared.values
  rw [s.length_values, h, length_values_manySelection, bindingLimit] at hvalues
  omega

/-- With one value for each of the many conditions, a statement for groups binds as many as can be
bound and is answered; the statement for a page binds its limit and its offset besides, and the
query fails. -/
theorem not_total_agrees_many : sampleStore.WellTyped ∧
    (∃ tally, manyAggregation.run ⟨some sampleStore⟩ 0 = .ok tally) ∧
    manyQuery.find = manyAggregation.find ∧ manyQuery.conditions = manyAggregation.conditions ∧
    manyQuery.offset = 0 ∧ (sampleStore.nodes.length : Int) < manyQuery.limit.toInt ∧
    manyQuery.run ⟨some sampleStore⟩ (Database.fieldResolver ⟨some sampleStore⟩) 0
      = .error .storage := by
  have hstore : (⟨some sampleStore⟩ : Database).store = .ok sampleStore := rfl
  refine ⟨Query.wellTyped_sampleStore, ?_, rfl, rfl, rfl, by decide, ?_⟩
  · have hplan : manyAggregation.plan 0 = .ok (manyAggregation, _) :=
      plan_eq_ok_iff.mpr ⟨rfl, _, resolveAll_manyConditions, rfl, statement_manyAggregation⟩
    obtain ⟨n, hrun⟩ := exists_run hstore hplan (isAccepted_groups_many rfl rfl)
    exact ⟨_, hrun⟩
  · have hlimit : (sampleStore.nodes.length : Int) < manyQuery.limit.toInt := by decide
    have hterm : SortTerm.ofField manyQuery.sortKey.field = .ok (.column .created) := rfl
    have hplan : manyQuery.plan 0 = .ok _ :=
      Query.plan_of_selection rfl resolveAll_manyConditions selection_of_manyConditions rfl hlimit
        hterm
    exact Query.run_eq_error hstore hplan (not_isPrepared_page_many rfl)

end Aggregation

end GraphIndex
