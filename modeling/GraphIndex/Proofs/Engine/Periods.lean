import GraphIndex.Proofs.Engine.Ranking
import GraphIndex.Proofs.Query.PeriodKeys

/-!
# Counts of longer periods

Counting nodes by a longer period is counting them by a shorter one and adding up
(`Counts.rollUp`): `Aggregation.periods_roll_up`. Nodes without a date are as many along every
period, and the counts along each of them sum up to the total, for along a period every node has one
key.
-/

namespace GraphIndex

/-! ### Adding up -/

namespace Counts

/-- The counts under new keys: those whose keys become the same are added up. -/
def rollUp (f : String → String) (cs : Counts) : Counts :=
  (distinct (cs.map fun e => f e.1)).map fun k => (k, sum (cs.filter fun e => f e.1 = k))

theorem sum_eq_sum_map (cs : Counts) : cs.sum = (cs.map (·.2)).sum := rfl

end Counts

namespace Groups.CountsNodes

variable {counts counts' : Counts} {nodes : List NodeRow} {key key' : NodeRow → String}

/-- A count in one table is the number of nodes with its key. -/
theorem mem_counts_iff (h : (flat counts).CountsNodes nodes fun r => [[key r]]) {k : String}
    {n : Int} : (k, n) ∈ counts ↔ n = (nodes.filter fun r => key r = k).length ∧ 0 < n := by
  have hentry : (k, n) ∈ counts ↔ ([k], n) ∈ (flat counts).entries := by
    unfold entries
    simp
  rw [hentry, h.mem_iff]
  simp [eq_comm]

/-- The keys are those that some node has. -/
theorem mem_keys_counts_iff (h : (flat counts).CountsNodes nodes fun r => [[key r]])
    {k : String} : k ∈ counts.map (·.1) ↔ ∃ r ∈ nodes, key r = k := by
  have hcount : (∃ n, (k, n) ∈ counts) ↔ 0 < (nodes.filter fun r => key r = k).length := by
    simp only [h.mem_counts_iff, exists_eq_left]
    omega
  rw [List.length_pos_iff_exists_mem] at hcount
  simpa using hcount

/-- Equal numbers of nodes have equal counts. -/
theorem get?_eq_get? (h : (flat counts).CountsNodes nodes fun r => [[key r]])
    (h' : (flat counts').CountsNodes nodes fun r => [[key' r]]) {k : String}
    (hk : ∀ r ∈ nodes, key r = k ↔ key' r = k) : counts.get? k = counts'.get? k := by
  have hsame : (nodes.filter fun r => key r = k) = nodes.filter fun r => key' r = k :=
    List.filter_congr fun r hr => by simp only [hk r hr]
  refine Option.ext fun n => ?_
  unfold Counts.get?
  rw [lookup_eq_some_iff_mem h.once, lookup_eq_some_iff_mem h'.once, h.mem_counts_iff,
    h'.mem_counts_iff, hsame]

theorem sum_counts (h : (flat counts).CountsNodes nodes fun r => [[key r]]) :
    counts.sum = nodes.length := by
  have hsum := h.sum_eq fun r _ => List.nodup_singleton _
  have hentries : ((flat counts).entries.map (·.2)) = counts.map (·.2) := by
    unfold entries
    rw [List.map_map]
    rfl
  rw [hentries] at hsum
  rw [Counts.sum_eq_sum_map, hsum]
  simp

/-- The counts of some of the keys count the nodes with these keys. -/
theorem filter (h : (flat counts).CountsNodes nodes fun r => [[key r]]) (p : String → Bool) :
    (flat (counts.filter fun e => p e.1)).CountsNodes (nodes.filter fun r => p (key r))
      fun r => [[key r]] where
  once := h.once.sublist (List.filter_sublist.map _)
  nodup := h.nodup.sublist ((List.filter_sublist.map _).map _)
  mem_iff := by
    intro ks n
    have hentries : (ks, n) ∈ (flat (counts.filter fun e => p e.1)).entries
        ↔ (ks, n) ∈ (flat counts).entries ∧ ∃ k, ks = [k] ∧ p k = true := by
      unfold entries
      simp only [List.mem_map, List.mem_filter, Prod.mk.injEq]
      constructor
      · rintro ⟨⟨k, m⟩, ⟨hmem, hk⟩, rfl, rfl⟩
        exact ⟨⟨_, hmem, rfl, rfl⟩, k, rfl, hk⟩
      · rintro ⟨⟨⟨k, m⟩, hmem, rfl, rfl⟩, k', hkeys, hk⟩
        rw [List.singleton_inj] at hkeys
        exact ⟨(k, m), ⟨hmem, hkeys ▸ hk⟩, rfl, rfl⟩
    rw [hentries, h.mem_iff, List.filter_filter]
    by_cases hks : ∃ k, ks = [k] ∧ p k = true
    · obtain ⟨k, rfl, hk⟩ := hks
      have hsame : (nodes.filter fun r => [k] ∈ [[key r]])
          = nodes.filter fun r => decide ([k] ∈ [[key r]]) && p (key r) := by
        refine List.filter_congr fun r _ => ?_
        by_cases hr : k = key r
        · simp [← hr, hk]
        · simp [hr]
      rw [← hsame]
      exact and_iff_left ⟨k, rfl, hk⟩
    · -- No node is left that has the key.
      have hnone : (nodes.filter fun r => decide (ks ∈ [[key r]]) && p (key r)) = [] := by
        refine List.filter_eq_nil_iff.mpr fun r _ hr => hks ?_
        simp only [List.mem_singleton, Bool.and_eq_true, decide_eq_true_eq] at hr
        exact ⟨_, hr⟩
      rw [hnone]
      refine iff_of_false (fun hmem => hks hmem.2) ?_
      rintro ⟨rfl, hpos⟩
      exact lt_irrefl _ hpos

theorem mem_rollUp_iff (h : (flat counts).CountsNodes nodes fun r => [[key r]])
    {f : String → String} {k : String} {n : Int} : (k, n) ∈ counts.rollUp f ↔
      n = (nodes.filter fun r => f (key r) = k).length ∧ 0 < n := by
  -- The count of a longer period is the sum over the shorter ones that it is made of.
  have hsum := (h.filter fun k' => f k' = k).sum_counts
  have hkeys : k ∈ counts.map (fun e => f e.1) ↔
      0 < (nodes.filter fun r => f (key r) = k).length := by
    have hmap : counts.map (fun e => f e.1) = (counts.map (·.1)).map f := by simp
    rw [hmap, List.mem_map, List.length_pos_iff_exists_mem]
    simp only [h.mem_keys_counts_iff, List.mem_filter, decide_eq_true_eq]
    constructor
    · rintro ⟨_, ⟨r, hr, rfl⟩, hk⟩
      exact ⟨r, hr, hk⟩
    · rintro ⟨r, hr, hk⟩
      exact ⟨_, ⟨r, hr, rfl⟩, hk⟩
  unfold Counts.rollUp
  simp only [List.mem_map (f := fun k => (k, _)), mem_distinct, Prod.mk.injEq]
  constructor
  · rintro ⟨k', hk', rfl, rfl⟩
    rw [hkeys] at hk'
    exact ⟨hsum, by omega⟩
  · rintro ⟨hn, hpos⟩
    exact ⟨k, hkeys.mpr (by omega), rfl, hsum.trans hn.symm⟩

/-- **Adding up**: where the new key of a node is read off its old one, the new counts are the old
ones added up. -/
theorem perm_rollUp (h : (flat counts).CountsNodes nodes fun r => [[key r]])
    (h' : (flat counts').CountsNodes nodes fun r => [[key' r]]) {f : String → String}
    (hkey : ∀ r ∈ nodes, f (key r) = key' r) : counts'.Perm (counts.rollUp f) := by
  have hnodup : counts'.Nodup := List.Nodup.of_map _ h'.once
  have hnodup' : (counts.rollUp f).Nodup := by
    apply List.Nodup.of_map (·.1)
    unfold Counts.rollUp
    rw [List.map_map]
    exact (nodup_distinct _).map fun _ _ h => h
  refine (List.perm_ext_iff_of_nodup hnodup hnodup').mpr fun ⟨k, n⟩ => ?_
  have hsame : (nodes.filter fun r => f (key r) = k) = nodes.filter fun r => key' r = k :=
    List.filter_congr fun r hr => by rw [hkey r hr]
  rw [h'.mem_counts_iff, h.mem_rollUp_iff, hsame]

end Groups.CountsNodes

/-! ### Periods -/

namespace Aggregation

variable {db : Database} {store : Store} {a b : Aggregation} {now : Int} {tally tally' : Tally}
  {p p' : Period} {column : DateColumn}

/-- An aggregation by a period is answered if that by another one is. -/
theorem exists_run_by_period (hstore : db.store = .ok store)
    (ha : a.dimensions = [.period p column]) (hrun : a.run db now = .ok tally)
    (hcheck : b.check = .ok ()) (hb : b.dimensions = [.period p' column]) (hfind : b.find = a.find)
    (hconditions : b.conditions = a.conditions) : ∃ tally', b.run db now = .ok tally' := by
  obtain ⟨-, es, -, selection, hes, -, hselection, -⟩ := exists_answer hstore hrun
  obtain ⟨s, hs, haccepted⟩ := exists_statement_of_run hes hrun
  rw [statement_by_period (a := { a with conditions := es }) ha hselection] at hs
  obtain rfl := Except.ok.inj hs
  rw [← hfind] at hselection
  rw [← hconditions] at hes
  have hs' := statement_by_period (a := { b with conditions := es }) hb hselection
  -- Both statements have one selection and equally many values.
  have hvalues := (length_values_by_period selection p column (successor a.cap)).trans
    (length_values_by_period selection p' column (successor b.cap)).symm
  obtain ⟨total, hanswer⟩ :=
    exists_run hstore (plan_eq_ok_iff.mpr ⟨hcheck, es, hes, rfl, hs'⟩)
      ((Statement.isAccepted_iff_of_selection_eq hvalues rfl).mp haccepted)
  exact ⟨_, hanswer⟩

/-- Along a period the counts of a whole answer are the numbers of nodes with each key. -/
theorem exists_counts_by_period (hstore : db.store = .ok store) (hkeyed : store.Keyed)
    (ha : a.dimensions = [.period p column]) (hrun : a.run db now = .ok tally)
    (hshown : a.ShowsAll tally) : ∃ es counts, Entry.resolveAll now a.conditions = .ok es ∧
      tally.groups = .flat counts ∧ tally.total = (store.selected a.find es).length ∧
      (Groups.flat counts).CountsNodes (store.selected a.find es)
        fun r => [[(r.cell column.column).periodKey p]] := by
  obtain ⟨es, hes, htotal, hcounts⟩ := exists_counts hstore hkeyed hrun hshown
  obtain ⟨-, es', s, selection, -, -, -, rfl⟩ := exists_answer hstore hrun
  have hflat := Tally.groups_ofRows_take a (selection.count store) (s.answer store)
  rw [ha] at hflat
  refine ⟨es, _, hes, hflat, htotal, ?_⟩
  rw [hflat, ha] at hcounts
  exact hcounts

/-- Along a longer period there are no more groups than along a shorter one. -/
theorem showsAll_of_coarsening (hstore : db.store = .ok store) (hkeyed : store.Keyed)
    {es : List Entry} (hes : Entry.resolveAll now b.conditions = .ok es) {counts : Counts}
    {c : Coarsening} (hcounts : (Groups.flat counts).CountsNodes (store.selected b.find es)
      fun r => [[(r.cell column.column).periodKey c.fine]])
    (hb : b.dimensions = [.period c.coarse column]) (hrun : b.run db now = .ok tally)
    (hle : (counts.length : Int) ≤ b.cap.toInt) (hcap : b.cap ≠ Int64.maxValue) :
    b.ShowsAll tally := by
  obtain ⟨s, hs, -⟩ := exists_statement_of_run hes hrun
  have hkeys : ∀ r ∈ store.selected b.find es,
      Dimension.keyLists store r b.dimensions ⊆ counts.map fun e => [c.key e.1] := by
    intro r hr ks hks
    rw [hb, Dimension.keyLists_period, List.mem_singleton] at hks
    obtain ⟨e, he, hkey⟩ := List.mem_map.mp (hcounts.mem_keys_counts_iff.mpr ⟨r, hr, rfl⟩)
    refine List.mem_map.mpr ⟨e, he, ?_⟩
    rw [hks, hkey, c.key_periodKey]
  have hlength := GroupStatement.length_groups_le_of_keys hkeyed hs hkeys
  rw [List.length_map] at hlength
  exact showsAll_of_length_le hstore hrun hes hs (by omega) hcap

/-- **Longer periods add up shorter ones.** Where nodes are counted by a period and nothing is cut
off, they can be counted by any other period. If nothing is cut off there either, both have the same
total, which is the sum of the counts of each, and the same number of nodes without a date. If the
other period is longer, so that its key can be read off that of the shorter one, its counts are
those of the shorter one added up; a cap that would allow all shorter periods cuts off nothing. -/
theorem periods_roll_up (hstore : db.store = .ok store) (hkeyed : store.Keyed)
    (ha : a.dimensions = [.period p column]) (hrun : a.run db now = .ok tally)
    (hshown : a.ShowsAll tally) (hcheck : b.check = .ok ())
    (hb : b.dimensions = [.period p' column]) (hfind : b.find = a.find)
    (hconditions : b.conditions = a.conditions) :
    ∃ counts tally', tally.groups = .flat counts ∧ counts.sum = tally.total ∧
      b.run db now = .ok tally' ∧
      (b.ShowsAll tally' → ∃ counts', tally'.groups = .flat counts' ∧ tally'.total = tally.total ∧
        counts'.sum = tally'.total ∧ counts'.get? noneKey = counts.get? noneKey ∧
        ∀ c : Coarsening, c.fine = p → c.coarse = p' →
          c.key noneKey = noneKey ∧ counts'.Perm (counts.rollUp c.key)) ∧
      ∀ c : Coarsening, c.fine = p → c.coarse = p' → (counts.length : Int) ≤ b.cap.toInt →
        b.cap ≠ Int64.maxValue → b.ShowsAll tally' := by
  obtain ⟨es, counts, hes, hgroups, htotal, hcounts⟩ :=
    exists_counts_by_period hstore hkeyed ha hrun hshown
  obtain ⟨tally', hrun'⟩ := exists_run_by_period hstore ha hrun hcheck hb hfind hconditions
  refine ⟨counts, tally', hgroups, hcounts.sum_counts.trans htotal.symm, hrun', ?_, ?_⟩
  · intro hshown'
    obtain ⟨es', counts', hes', hgroups', htotal', hcounts'⟩ :=
      exists_counts_by_period hstore hkeyed hb hrun' hshown'
    rw [hconditions, hes] at hes'
    obtain rfl := Except.ok.inj hes'
    rw [hfind] at htotal' hcounts'
    refine ⟨counts', hgroups', htotal'.trans htotal.symm, hcounts'.sum_counts.trans htotal'.symm,
      hcounts'.get?_eq_get? hcounts fun r _ => ?_, ?_⟩
    · rw [Datum.periodKey_eq_noneKey_iff, Datum.periodKey_eq_noneKey_iff]
    · rintro c rfl rfl
      exact ⟨c.key_noneKey, hcounts.perm_rollUp hcounts' fun r _ => c.key_periodKey _⟩
  · rintro c rfl rfl hle hcap
    rw [← hfind] at hcounts
    rw [← hconditions] at hes
    exact showsAll_of_coarsening hstore hkeyed hes hcounts hb hrun' hle hcap

/-- Two notes of the first two days of 1970 and one without a date. -/
def datedNotes : Store where
  nodes := [⟨"n1", none, none, none, .integer 0, .null, .null⟩,
    ⟨"n2", none, none, none, .integer 86400000, .null, .null⟩,
    ⟨"n3", none, none, none, .null, .null, .null⟩]
  tags := []
  fields := []

/-- The notes by a period of their creation. -/
def datedNotesBy (p : Period) : Aggregation := .along anyNode [.period p .created]

theorem exists_run_datedNotes (p : Period) (h : p = .day ∨ p = .week) : ∃ tally,
    (datedNotesBy p).run ⟨some datedNotes⟩ 0 = .ok tally ∧ (datedNotesBy p).ShowsAll tally ∧
      tally.total = 3 := by
  have hstore : (⟨some datedNotes⟩ : Database).store = .ok datedNotes := rfl
  obtain ⟨tally, hrun, htotal⟩ : ∃ tally, (datedNotesBy p).run ⟨some datedNotes⟩ 0 = .ok tally ∧
      tally.total = 3 := by
    rcases h with rfl | rfl <;> exact ⟨_, rfl, rfl⟩
  obtain ⟨s, hs, hgroups⟩ : ∃ s, (datedNotesBy p).statement = .ok s ∧
      (s.groups datedNotes).length ≤ 3 := by
    rcases h with rfl | rfl <;> exact ⟨_, rfl, by decide +kernel⟩
  have hcap : (datedNotesBy p).cap.toInt = 100 := rfl
  exact ⟨tally, hrun, showsAll_of_length_le hstore hrun rfl hs (by omega) (by cases p <;> decide),
    htotal⟩

/-- The weeks of the notes from their days. -/
theorem periods_roll_up_weeks : ∃ (counts counts' : Counts) (tally tally' : Tally),
    (datedNotesBy .day).run ⟨some datedNotes⟩ 0 = .ok tally ∧ tally.groups = .flat counts ∧
    (datedNotesBy .week).run ⟨some datedNotes⟩ 0 = .ok tally' ∧ tally'.groups = .flat counts' ∧
    counts'.Perm (counts.rollUp Coarsening.dayToWeek.key) ∧ counts'.sum = 3 := by
  have hkeyed : datedNotes.Keyed := ⟨by decide, by decide⟩
  obtain ⟨tally, hrun, hshown, htotal⟩ := exists_run_datedNotes .day (Or.inl rfl)
  obtain ⟨tally'', hrun'', hshown', -⟩ := exists_run_datedNotes .week (Or.inr rfl)
  obtain ⟨counts, tally', hflat, -, hrun', hother, -⟩ :=
    periods_roll_up (b := datedNotesBy .week) rfl hkeyed rfl hrun hshown rfl rfl rfl rfl
  obtain rfl := Except.ok.inj (hrun''.symm.trans hrun')
  obtain ⟨counts', hflat', hsame, hsum, -, hperm⟩ := hother hshown'
  exact ⟨counts, counts', tally, tally'', hrun, hflat, hrun', hflat',
    (hperm .dayToWeek rfl rfl).2, by rw [hsum, hsame, htotal]⟩

end Aggregation

end GraphIndex
