import GraphIndex.Proofs.Engine.Members
import GraphIndex.Proofs.Engine.Paging
import GraphIndex.Proofs.Store.Sorting

/-!
# The largest groups

The groups of a statement have one ranking (`GroupStatement.Ranks.unique`): larger groups come
first, and groups of one size stand in the order of their keys. A tally shows the head of it, as
long as the cap allows, in one table or in tables of tables (`Groups.Shows`), and says whether more
groups exist: `Aggregation.top_groups`.
-/

namespace GraphIndex

/-! ### The order of groups -/

namespace GroupRow

/-- A group comes before another if it is larger, or of the same size and with smaller keys. -/
def Precedes (g g' : GroupRow) : Prop :=
  g'.count < g.count ∨ g.count = g'.count ∧ g.keys < g'.keys

/-- Keys are compared one by one, the first that differ decide. -/
theorem compares_keysOrder (ks ks' : List String) : (keysOrder ks ks').Compares ks ks' := by
  induction ks generalizing ks' with
  | nil =>
    cases ks' with
    | nil => rfl
    | cons k' ks' => exact List.nil_lt_cons k' ks'
  | cons k ks ih =>
    cases ks' with
    | nil => exact List.nil_lt_cons k ks
    | cons k' ks' =>
      rw [keysOrder, Datum.textOrder_eq_compare]
      cases hk : compare k k' with
      | lt => exact List.cons_lt_cons_iff.mpr (Or.inl (compare_lt_iff_lt.mp hk))
      | gt => exact List.cons_lt_cons_iff.mpr (Or.inl (compare_gt_iff_gt.mp hk))
      | eq =>
        -- The first keys are equal, so that the others decide.
        obtain rfl := compare_eq_iff_eq.mp hk
        have hrest := ih ks'
        show (keysOrder ks ks').Compares _ _
        cases horder : keysOrder ks ks' with
        | lt =>
          rw [horder] at hrest
          exact List.cons_lt_cons_iff.mpr (Or.inr ⟨rfl, hrest⟩)
        | gt =>
          rw [horder] at hrest
          exact List.cons_lt_cons_iff.mpr (Or.inr ⟨rfl, hrest⟩)
        | eq =>
          rw [horder] at hrest
          exact congrArg (k :: ·) hrest

/-- Groups are sorted by their sizes, the largest first, and then by their keys. -/
theorem isSortKey_order (gs : List GroupRow) :
    IsSortKey gs order fun g => toLex (OrderDual.toDual g.count, g.keys) := by
  -- The counts are compared the other way round, for the larger group comes first.
  have hcount : IsSortKey gs (fun g g' => Ord.compare g'.count g.count)
      fun g => OrderDual.toDual g.count :=
    ⟨fun _ _ _ _ => compare_lt_iff_lt, fun _ _ _ _ => compare_eq_iff_eq.trans eq_comm,
      fun _ _ _ _ => compare_gt_iff_gt⟩
  have hkeys : IsSortKey gs (fun g g' => keysOrder g.keys g'.keys) (·.keys) :=
    ⟨fun _ _ _ _ => (compares_keysOrder _ _).eq_lt, fun _ _ _ _ => (compares_keysOrder _ _).eq_eq,
      fun _ _ _ _ => (compares_keysOrder _ _).eq_gt⟩
  exact hcount.andThen hkeys

theorem precedes_iff {g g' : GroupRow} : g.Precedes g' ↔ g.order g' = .lt := by
  have horder := (isSortKey_order [g, g']).lt_iff g (by simp) g' (by simp)
  rw [horder, Prod.Lex.toLex_lt_toLex]
  rfl

theorem Precedes.count_le {g g' : GroupRow} (h : g.Precedes g') : g'.count ≤ g.count := by
  unfold Precedes at h
  omega

end GroupRow

/-! ### Rankings -/

namespace GroupStatement

variable {store : Store} {s : GroupStatement}

/-- A list is the ranking of the groups of a statement: it has the keys that rows of the statement
have, each with the number of different ids of these rows, in the order of groups. -/
structure Ranks (store : Store) (s : GroupStatement) (ranking : List GroupRow) : Prop where
  mem_keys : ∀ ks, ks ∈ ranking.map (·.keys) ↔ ks ∈ (s.keyedRows store).map (·.1)
  count : ∀ g ∈ ranking,
    g.count = countIds (((s.keyedRows store).filter (·.1 == g.keys)).map (·.2))
  ordered : ranking.Pairwise GroupRow.Precedes

/-- The groups of a statement in their order. -/
def ranking (store : Store) (s : GroupStatement) : List GroupRow :=
  (s.groups store).mergeSort fun g g' => g.order g' != .gt

theorem answer_eq_take (store : Store) (s : GroupStatement) :
    s.answer store = (s.ranking store).take s.limit.toInt.toNat := rfl

theorem ranking_perm (store : Store) (s : GroupStatement) :
    (s.ranking store).Perm (s.groups store) :=
  List.mergeSort_perm _ _

/-- The groups of a statement have the keys and the counts of a ranking. -/
theorem ranks_of_perm {gs : List GroupRow} (h : gs.Perm (s.groups store))
    (hordered : gs.Pairwise GroupRow.Precedes) : s.Ranks store gs where
  mem_keys := by
    intro ks
    rw [(h.map _).mem_iff, groups_eq, List.map_map]
    simp
  count := by
    intro g hg
    rw [h.mem_iff, groups_eq] at hg
    obtain ⟨ks, -, rfl⟩ := List.mem_map.mp hg
    rfl
  ordered := hordered

theorem ranks_ranking (store : Store) (s : GroupStatement) :
    s.Ranks store (s.ranking store) := by
  have hkeys : ((s.groups store).map fun g =>
      toLex (OrderDual.toDual g.count, g.keys)).Nodup := by
    refine List.Nodup.of_map (fun key => (ofLex key).2) ?_
    rw [List.map_map]
    exact nodup_keys_groups store s
  have hordered := (GroupRow.isSortKey_order _).pairwise_lt_mergeSort hkeys
  exact ranks_of_perm (ranking_perm store s) (hordered.imp GroupRow.precedes_iff.mpr)

/-- **One ranking**: the keys, the counts and the order leave no choice. -/
theorem Ranks.unique {gs gs' : List GroupRow} (h : s.Ranks store gs) (h' : s.Ranks store gs') :
    gs = gs' := by
  have hsub : ∀ {l l'}, s.Ranks store l → s.Ranks store l' → l ⊆ l' := by
    intro l l' hl hl' g hg
    have hkeys := (hl.mem_keys g.keys).mp (List.mem_map_of_mem hg)
    rw [← hl'.mem_keys] at hkeys
    obtain ⟨g', hg', hsame⟩ := List.mem_map.mp hkeys
    have hcount := hl'.count g' hg'
    rw [hsame, ← hl.count g hg] at hcount
    rwa [show g = g' by cases g; cases g'; simp_all]
  -- Both lists have the same members, and a strict order leaves one way to list them.
  have hirrefl : Std.Irrefl GroupRow.Precedes := ⟨fun g hg => by
    rcases hg with hlt | ⟨-, hlt⟩ <;> exact lt_irrefl _ hlt⟩
  have hantisymm : Std.Antisymm GroupRow.Precedes := ⟨fun g g' hg hg' => by
    rcases hg with hlt | ⟨heq, hlt⟩
    · exact absurd hg'.count_le (not_le.mpr hlt)
    · rcases hg' with hlt' | ⟨-, hlt'⟩
      · omega
      · exact absurd (hlt.trans hlt') (lt_irrefl _)⟩
  exact h.ordered.eq_of_mem_iff h'.ordered fun g => ⟨fun hg => hsub h h' hg, fun hg => hsub h' h hg⟩

end GroupStatement

/-! ### Tables of rows -/

namespace Groups

/-- The outer key of a row. -/
def outerKey (g : GroupRow) : String := g.keys.headD noneKey

/-- The inner key of a row with its count. -/
def innerCount (g : GroupRow) : String × Int := ((g.keys.drop 1).headD noneKey, g.count)

/-- The counts of rows by their outer keys, everything in the order of the rows. -/
def tableOf (rows : List GroupRow) : List (String × Counts) :=
  (distinct (rows.map outerKey)).map fun k =>
    (k, (rows.filter fun g => outerKey g = k).map innerCount)

theorem map_fst_tableOf (rows : List GroupRow) :
    (tableOf rows).map (·.1) = distinct (rows.map outerKey) := by
  unfold tableOf
  rw [List.map_map]
  exact List.map_id _

/-- Entering rows one after the other puts all rows with one outer key together. -/
theorem nestedOf_eq_tableOf (rows : List GroupRow) : nestedOf rows = tableOf rows := by
  -- Rows are entered from the first to the last, so the induction takes off the last one.
  induction rows using List.reverseRecOn with
  | nil => rfl
  | append_singleton rows g ih =>
    have hentered : nestedOf (rows ++ [g])
        = enter (outerKey g) (innerCount g).1 (innerCount g).2 (nestedOf rows) := by
      rw [nestedOf_eq_foldl, List.foldl_append]
      rfl
    have hnodup : ((tableOf rows).map (·.1)).Nodup := by
      rw [map_fst_tableOf]
      exact nodup_distinct _
    rw [hentered, ih, enter_eq_enterAt, enterAt_eq hnodup]
    simp only [map_fst_tableOf, mem_distinct]
    unfold tableOf
    rw [List.map_append, List.map_singleton, distinct_append_singleton]
    -- The row joins the counts of its outer key, or the key is new and comes last.
    split_ifs with hmem
    · rw [List.map_map]
      refine List.map_congr_left fun k _ => ?_
      by_cases hk : k = outerKey g
      · simp [hk, List.filter_append]
      · simp [hk, Ne.symm hk, List.filter_append]
    · rw [List.map_append]
      congr 1
      · refine List.map_congr_left fun k hk => ?_
        have hne : outerKey g ≠ k := fun h => hmem (mem_distinct.mp (h ▸ hk))
        simp [hne, List.filter_append]
      · have hnone : rows.filter (fun g' => outerKey g' = outerKey g) = [] := by
          simp only [List.filter_eq_nil_iff, decide_eq_true_eq]
          exact fun g' hg' h => hmem (h ▸ List.mem_map_of_mem hg')
        simp [hnone, List.filter_append]

/-- Groups hold rows with so many keys: along one dimension in one table, along two under their
outer keys in the order in which these turn up, and always in the order of the rows. -/
structure Shows (groups : Groups) (dimensions : Nat) (rows : List GroupRow) : Prop where
  keyed : groups.Keyed
  perm : groups.entries.Perm (rows.map fun g => (g.keys, (g.count : Int)))
  flat : dimensions = 1 → ∃ counts, groups = .flat counts ∧
    counts.map (fun (key, n) => ([key], n)) = rows.map fun g => (g.keys, (g.count : Int))
  nested : dimensions = 2 → ∃ table, groups = .nested table ∧
    table.map (·.1) = distinct (rows.filterMap (·.keys.head?)) ∧
    ∀ outer counts, (outer, counts) ∈ table →
      counts.map (fun (inner, n) => ([outer, inner], n))
        = (rows.filter (·.keys.head? = some outer)).map fun g => (g.keys, (g.count : Int))

theorem Shows.size_eq {groups : Groups} {dimensions : Nat} {rows : List GroupRow}
    (h : groups.Shows dimensions rows) : groups.size = rows.length := by
  rw [size_eq_length, h.perm.length_eq, List.length_map]

/-- The groups of rows with different keys show the rows. -/
theorem shows_ofRows {dimensions : Nat} {rows : List GroupRow}
    (hdimensions : dimensions = 1 ∨ dimensions = 2)
    (hkeys : ∀ g ∈ rows, g.keys.length = dimensions) (hnodup : (rows.map (·.keys)).Nodup) :
    (ofRows dimensions rows).Shows dimensions rows := by
  obtain ⟨hkeyed, hperm⟩ := ofRows_spec hdimensions hkeys hnodup
  refine ⟨hkeyed, hperm, ?_, ?_⟩
  · rintro rfl
    exact ⟨flatOf rows, rfl, entries_flatOf hkeys⟩
  · rintro rfl
    -- A row of two keys is its outer key, with its inner key and its count under it.
    have hhead : ∀ g ∈ rows, g.keys.head? = some (outerKey g) := by
      intro g hg
      obtain ⟨k, k', hk⟩ := List.length_eq_two.mp (hkeys g hg)
      simp [outerKey, hk]
    have hrow : ∀ g ∈ rows,
        (g.keys, (g.count : Int)) = ([outerKey g, (innerCount g).1], (innerCount g).2) := by
      intro g hg
      obtain ⟨k, k', hk⟩ := List.length_eq_two.mp (hkeys g hg)
      simp [outerKey, innerCount, hk]
    refine ⟨tableOf rows, congrArg nested (nestedOf_eq_tableOf rows), ?_, ?_⟩
    · rw [map_fst_tableOf]
      congr 1
      rw [← List.filterMap_eq_map]
      exact List.filterMap_congr fun g hg => (hhead g hg).symm
    · intro outer counts hmem
      obtain ⟨k, -, heq⟩ := List.mem_map.mp hmem
      obtain ⟨rfl, rfl⟩ := Prod.mk.inj heq
      have hfilter : rows.filter (·.keys.head? = some k) = rows.filter (outerKey · = k) :=
        List.filter_congr fun g hg => by simp [hhead g hg]
      rw [hfilter, List.map_map]
      refine List.map_congr_left fun g hg => ?_
      obtain ⟨hg, hk⟩ := List.mem_filter.mp hg
      rw [hrow g hg, of_decide_eq_true hk]
      rfl

end Groups

/-! ### Runs -/

namespace Aggregation

variable {db : Database} {store : Store} {a b : Aggregation} {s : GroupStatement} {now : Int}

/-- The limit of what may be shown is at least one. -/
theorem one_le_cap_of_check (h : a.check = .ok ()) : 1 ≤ a.cap.toInt := by
  have hdimensions : ¬ (a.dimensions.length = 0 ∨ 2 < a.dimensions.length) := by
    have hlength := dimensions_of_check h
    omega
  unfold Aggregation.check at h
  simp only [bind_eq_ok_iff, if_neg hdimensions] at h
  obtain ⟨_, -, _, hlimit, htop⟩ := h
  have hone : (1 : Int64).toInt = 1 := rfl
  unfold cap
  -- The cap is the number that is asked for or else the limit, and both were checked.
  cases hcase : a.top with
  | none =>
    unfold checkLimit at hlimit
    split_ifs at hlimit with hlt
    rwa [Int64.not_lt, Int64.le_iff_toInt_le, hone] at hlt
  | some top =>
    rw [hcase] at htop
    dsimp only at htop
    split_ifs at htop with hlt
    rwa [Int64.not_lt, Int64.le_iff_toInt_le, hone] at hlt

end Aggregation

/-! ### The head of the ranking -/

/-- What a tally shows of the rows of a statement does not depend on how many more were fetched. -/
theorem Tally.groups_ofRows_take (a : Aggregation) (total : Nat) (rows : List GroupRow) :
    (ofRows a total rows).groups
      = Groups.ofRows a.dimensions.length (rows.take a.cap.toInt.toNat) := by
  unfold ofRows
  by_cases h : a.cap.toInt < rows.length
  · simp [h]
  · rw [List.take_of_length_le (by omega)]
    simp [h]

theorem Tally.truncatedAt_eq (a : Aggregation) (total : Nat) (rows : List GroupRow) :
    (ofRows a total rows).truncatedAt
      = if a.cap.toInt < rows.length then some a.cap else none := by
  unfold ofRows
  simp

namespace GroupStatement

variable {store : Store} {a : Aggregation} {s : GroupStatement}

/-- Every group of a statement has a key for each dimension. -/
theorem length_keys_of_mem_ranking (h : a.statement = .ok s) :
    ∀ g ∈ s.ranking store, g.keys.length = a.dimensions.length := by
  obtain ⟨selection, keys, -, hkeys, rfl⟩ := Aggregation.exists_of_statement h
  have hlength : ∀ {place ds keys},
      Dimension.BecomeAll place ds keys → keys.length = ds.length := by
    intro place ds keys hbecome
    induction hbecome with
    | nil => rfl
    | cons _ _ ih => rw [List.length_cons, List.length_cons, ih]
  intro g hg
  have hmem := ((ranks_ranking store _).mem_keys g.keys).mp (List.mem_map_of_mem hg)
  unfold keyedRows keysOf at hmem
  simp only [List.map_map, List.mem_map, Function.comp_apply] at hmem
  obtain ⟨row, -, hrow⟩ := hmem
  rw [← hrow, List.length_map, hlength hkeys]

theorem nodup_keys_ranking (store : Store) (s : GroupStatement) :
    ((s.ranking store).map (·.keys)).Nodup := by
  rw [((ranking_perm store s).map _).nodup_iff]
  exact nodup_keys_groups store s

end GroupStatement

namespace Aggregation

variable {db : Database} {store : Store} {a b : Aggregation} {s : GroupStatement} {now : Int}

/-- **The largest groups are shown.** An aggregation with an accepted statement is answered. Its
groups have one ranking, with different keys, by falling sizes and among groups of one size by their
keys; the tally shows as much of its head as the cap allows, so that no group left out is larger
than one that is shown, and it tells of further groups if there are any. No list is longer than the
largest cap. With a statement beyond the limits there is no answer. -/
theorem top_groups (hstore : db.store = .ok store) (hplan : a.plan now = .ok (b, s)) :
    ((Statement.groups s).IsAccepted →
      ∃ ranking tally, s.Ranks store ranking ∧ (∀ gs, s.Ranks store gs → gs = ranking) ∧
        (ranking.map (·.keys)).Nodup ∧ a.run db now = .ok tally ∧
        tally.groups.Shows a.dimensions.length (ranking.take a.cap.toInt.toNat) ∧
        tally.groups.size = min a.cap.toInt.toNat ranking.length ∧
        (∀ g ∈ ranking.drop a.cap.toInt.toNat, ∀ entry ∈ tally.groups.entries,
          (g.count : Int) ≤ entry.2) ∧
        ((a.cap = Int64.maxValue → (ranking.length : Int) ≤ Int64.maxValue.toInt) →
          tally.truncatedAt = if a.cap.toInt < ranking.length then some a.cap else none)) ∧
    (¬ (Statement.groups s).IsPrepared → a.run db now = .error .storage) := by
  refine ⟨fun haccepted => ?_, run_eq_error hstore hplan⟩
  obtain ⟨total, hrun⟩ := exists_run hstore hplan haccepted
  obtain ⟨hcheck, es, -, rfl, hs⟩ := plan_eq_ok_iff.mp hplan
  have hcap := one_le_cap_of_check hcheck
  have hlimit : s.limit.toInt
      = if a.cap = Int64.maxValue then a.cap.toInt else a.cap.toInt + 1 := by
    obtain ⟨_, _, _, _, rfl⟩ := exists_parts hs
    exact toInt_successor (show 0 ≤ a.cap.toInt by omega)
  have hranks := GroupStatement.ranks_ranking store s
  set ranking := s.ranking store with hranking
  -- At least as many rows are fetched as may be shown.
  have hshown : (s.answer store).take a.cap.toInt.toNat = ranking.take a.cap.toInt.toNat := by
    have hle : a.cap.toInt.toNat ≤ s.limit.toInt.toNat := by
      split_ifs at hlimit <;> omega
    rw [GroupStatement.answer_eq_take, List.take_take, min_eq_left hle]
  have hshows : (Tally.ofRows a total (s.answer store)).groups.Shows a.dimensions.length
      (ranking.take a.cap.toInt.toNat) := by
    rw [Tally.groups_ofRows_take, hshown]
    apply Groups.shows_ofRows (dimensions_of_check hcheck)
    · exact fun g hg => GroupStatement.length_keys_of_mem_ranking hs g (List.mem_of_mem_take hg)
    · exact (GroupStatement.nodup_keys_ranking store s).sublist ((List.take_sublist _ _).map _)
  refine ⟨ranking, _, hranks, fun gs hgs => hgs.unique hranks,
    GroupStatement.nodup_keys_ranking store s, hrun, hshows, ?_, ?_, ?_⟩
  · rw [hshows.size_eq, List.length_take]
  · intro g hg entry hentry
    obtain ⟨g', hg', rfl⟩ := List.mem_map.mp (hshows.perm.mem_iff.mp hentry)
    have hordered := hranks.ordered
    rw [← List.take_append_drop a.cap.toInt.toNat ranking, List.pairwise_append] at hordered
    exact Int.ofNat_le.mpr (hordered.2.2 g' hg' g hg).count_le
  · intro hlast
    rw [Tally.truncatedAt_eq, GroupStatement.answer_eq_take, ← hranking, List.length_take]
    congr 1
    split_ifs at hlimit with hmax
    · have hlength := hlast hmax
      rw [← hmax] at hlength
      exact propext ⟨fun h => by omega, fun h => by omega⟩
    · exact propext ⟨fun h => by omega, fun h => by omega⟩

/-- Five notes with a status and a kind each. -/
def notesByStatus : Store where
  nodes := ["n1", "n2", "n3", "n4", "n5"].map fun id =>
    ⟨some id, none, none, none, .integer 0, .null, .null⟩
  tags := []
  fields := [⟨"n1", "status", "open", .integer 0⟩, ⟨"n1", "kind", "a", .integer 0⟩,
    ⟨"n2", "status", "open", .integer 0⟩, ⟨"n2", "kind", "a", .integer 0⟩,
    ⟨"n3", "status", "open", .integer 0⟩, ⟨"n3", "kind", "b", .integer 0⟩,
    ⟨"n4", "status", "done", .integer 0⟩, ⟨"n4", "kind", "a", .integer 0⟩,
    ⟨"n5", "status", "open", .integer 0⟩, ⟨"n5", "kind", "c", .integer 0⟩]

/-- The three largest groups by status and kind. -/
def threeLargest : Aggregation :=
  { Aggregation.along anyNode [.field "status", .field "kind"] with top := some 3 }

/-- Of four groups three are shown; two of them have one status, and another stands between them. -/
theorem top_groups_three : ∃ tally, threeLargest.run ⟨some notesByStatus⟩ 0 = .ok tally ∧
    tally.groups.Shows 2 [⟨["open", "a"], 2⟩, ⟨["done", "a"], 1⟩, ⟨["open", "b"], 1⟩] ∧
    tally.groups.size = 3 ∧ tally.truncatedAt = some 3 := by
  have hstore : (⟨some notesByStatus⟩ : Database).store = .ok notesByStatus := rfl
  obtain ⟨b, s, hplan, haccepted, hgroups⟩ : ∃ b s, threeLargest.plan 0 = .ok (b, s) ∧
      (Statement.groups s).IsAccepted ∧ s.groups notesByStatus
        = [⟨["open", "a"], 2⟩, ⟨["open", "b"], 1⟩, ⟨["done", "a"], 1⟩, ⟨["open", "c"], 1⟩] :=
    ⟨_, _, rfl, by decide, by decide +kernel⟩
  obtain ⟨ranking, tally, -, hunique, -, hrun, hshows, hsize, -, htruncated⟩ :=
    (top_groups hstore hplan).1 haccepted
  have hranks : s.Ranks notesByStatus
      [⟨["open", "a"], 2⟩, ⟨["done", "a"], 1⟩, ⟨["open", "b"], 1⟩, ⟨["open", "c"], 1⟩] := by
    apply GroupStatement.ranks_of_perm
    · rw [hgroups]
      decide
    · unfold GroupRow.Precedes
      decide
  obtain rfl := hunique _ hranks
  exact ⟨tally, hrun, hshows, hsize, htruncated fun _ => by decide⟩

/-- The groups by status of the nodes that sixty-four comparisons select. -/
def wideAggregation : Aggregation :=
  { Aggregation.along anyNode [.field "status"] with conditions := Query.wideQuery.conditions }

/-- Sixty-four comparisons are accepted and leave one group, which is never returned. -/
theorem not_top_groups_wide : wideAggregation.check = .ok () ∧ wideAggregation.cap = 100 ∧
    (∃ b s, wideAggregation.plan 0 = .ok (b, s) ∧ s.Ranks Query.wideStore [⟨["true"], 1⟩]) ∧
    wideAggregation.run ⟨some Query.wideStore⟩ 0 = .error .storage := by
  have hstore : (⟨some Query.wideStore⟩ : Database).store = .ok Query.wideStore := rfl
  have hstatement : wideAggregation.statement.toOption.map
      (fun s => (s.selection.joins.size, s.groups Query.wideStore))
        = some (65, [⟨["true"], 1⟩]) := by
    decide +kernel
  obtain ⟨s, hs, hanswer⟩ := Option.map_eq_some_iff.mp hstatement
  obtain ⟨hsize, hgroups⟩ := Prod.mk.inj hanswer
  have hplan : wideAggregation.plan 0 = .ok (wideAggregation, s) :=
    plan_eq_ok_iff.mpr ⟨rfl, _, rfl, rfl, eq_ok_of_toOption_eq_some hs⟩
  have hwide : ¬ (Statement.groups s).IsPrepared := by
    intro h
    have htables : s.selection.joins.size + 1 ≤ tableLimit := h.tables
    rw [hsize] at htables
    exact absurd htables (by decide)
  refine ⟨rfl, rfl, ⟨_, s, hplan, ?_⟩, run_eq_error hstore hplan hwide⟩
  exact GroupStatement.ranks_of_perm (by rw [hgroups]) (List.pairwise_singleton _ _)

end Aggregation

end GraphIndex
