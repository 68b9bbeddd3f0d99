import GraphIndex.Proofs.Engine.Members
import GraphIndex.Proofs.Query.DayKeys

/-!
# Days of creation

Nodes can be counted by the days of their creation, and a query can ask for the nodes that were
created on one day. `Store.DaysAgree` says that both find the same number for every day of the years
1 to 9998. They do so in all stores whose nodes were created at given points in time exactly if none
of these strays (`Store.daysAgree_iff`).
-/

namespace GraphIndex

open Calendar

/-! ### The conditions of a day -/

namespace Calendar.Date

/-- The day after a date. -/
def next (d : Date) : Date := ofDayNumber (d.dayNumber + 1)

/-- The point in time at which a day starts. -/
def start (d : Date) : Int64 := Int64.ofInt (d.dayNumber * dayMs)

variable {d : Date}

theorem dayNumber_next (d : Date) : d.next.dayNumber = d.dayNumber + 1 :=
  dayNumber_ofDayNumber _

theorem toInt_start (h : -719162 ≤ d.dayNumber ∧ d.dayNumber ≤ 2932532) :
    d.start.toInt = d.dayNumber * dayMs := by
  unfold start dayMs
  exact Int64.toInt_ofInt_of_le (by omega) (by omega)

theorem IsUsual.fitsYear_next (h : d.IsUsual) : 0 ≤ d.next.year ∧ d.next.year < 10000 := by
  have hnumber := h.dayNumber
  have hfirst := year_ofDayNumber_lt_iff (d.dayNumber + 1) 1
  have hlast := year_ofDayNumber_lt_iff (d.dayNumber + 1) 10000
  have hbefore : daysBeforeYear 1 = 0 ∧ daysBeforeYear 10000 = 3652059 := by decide
  rw [hbefore.1] at hfirst
  rw [hbefore.2] at hlast
  unfold epoch at hfirst hlast
  unfold next
  omega

end Calendar.Date

namespace Entry

/-- The conditions that a node was created on a day. -/
def createdOn (d : Date) : List Entry :=
  [.clause (.plain "created" (.compare .atLeast) (.text d.toText)),
    .clause (.plain "created" (.compare .less) (.text d.next.toText))]

/-- The conditions that a node was created at or after one point in time and before another one. -/
def createdBetween (first last : Int64) : List Entry :=
  [.clause (.plain "created" (.compare .atLeast) (.integer first)),
    .clause (.plain "created" (.compare .less) (.integer last))]

end Entry

section

variable {d : Date} {now : Int}

/-- A date that the creation is compared with stands for the start of its day. -/
theorem Clause.resolve_created (hvalid : d.isValid = true) (hyear : 0 ≤ d.year ∧ d.year < 10000)
    (c : Comparison) : (Clause.plain "created" (.compare c) (.text d.toText)).resolve now
      = .ok (.plain "created" (.compare c) (.integer d.start)) := by
  have hfield : isDateField "created" = true := rfl
  have htext : Moment.ofOperand now (.text d.toText) = Moment.ofText now d.toText := rfl
  have hms : Moment.ofOperand now (.text d.toText) = .ok d.start :=
    htext.trans (Moment.ofText_toText now hvalid hyear)
  unfold Clause.resolve Clause.plain
  simp only [Operator.isExistenceTest, hfield, hms, Bool.false_eq_true, if_false, if_true]
  rfl

theorem Entry.resolveAll_createdOn (hd : d.IsUsual) :
    Entry.resolveAll now (createdOn d) = .ok (createdBetween d.start d.next.start) := by
  have hnext : d.next.isValid = true := Date.isValid_ofDayNumber _
  unfold Entry.resolveAll Entry.createdOn
  rw [mapClausesAll, mapClausesAll, mapClausesAll, mapClauses, mapClauses,
    Clause.resolve_created hd.valid hd.fitsYear, Clause.resolve_created hnext hd.fitsYear_next]
  rfl

end

/-- What the conditions on the creation become. -/
def createdConditions (first last : Int64) : List Condition :=
  [.compare (nodeColumn .created) .atLeast (.bound (.integer first)),
    .compare (nodeColumn .created) .less (.bound (.integer last))]

/-- Conditions on a column join nothing. -/
theorem Selection.of_createdBetween (find : String) (first last : Int64) :
    Selection.of find (Entry.createdBetween first last)
      = .ok ⟨targetJoins find, createdConditions first last⟩ := by
  -- A condition on a column needs no join and takes no number.
  have hclause : ∀ (c : Comparison) (b : Int64),
      Yields ((Entry.clause (.plain "created" (.compare c) (.integer b))).filter
        Filter.defaultStem false) 0
        (.of (.compare (nodeColumn .created) c (.bound (.integer b))) []) 0 := fun c b => by
    have hroute : Route.ofField "created" = .ok (.column .created) := rfl
    have hbecomes : Clause.Becomes Filter.defaultStem (.plain "created" (.compare c) (.integer b))
        false 0 _ 0 := .column .created hroute
    exact yields_bind.mpr ⟨_, _, hbecomes.yields, yields_pure.mpr ⟨rfl, rfl⟩⟩
  have hfilters := Entry.yields_append (Entry.yields_singleton (hclause .atLeast first))
    (Entry.yields_singleton (hclause .less last))
  exact Selection.of_eq_ok_iff.mpr ⟨_, Filter.ofEntries_of_yields hfilters, rfl⟩

/-! ### Small statements -/

section

variable (find : String) (first last : Int64)

/-- A query for a day is small, whatever its target and its order. -/
theorem isAccepted_createdBetween (term : SortTerm) (descending : Bool) (limit offset : Int64) :
    (Statement.page ⟨⟨targetJoins find, createdConditions first last⟩, term, descending, limit,
      offset⟩).IsAccepted := by
  have hterm := term.length_values_le
  have hvalues : (⟨targetJoins find, createdConditions first last⟩ : Selection).values.length
      ≤ 3 := by
    rcases targetJoins_cases find with h | h <;> rw [h]
    · exact Nat.le_succ 2
    · exact Nat.le_refl 3
  have hheight : (⟨targetJoins find, createdConditions first last⟩ : Selection).height ≤ 5 := by
    rcases targetJoins_cases find with h | h <;> rw [h]
    · exact Nat.le_succ 4
    · exact Nat.le_refl 5
  refine ⟨⟨Nat.le_trans (Nat.succ_le_succ (size_targetJoins_le find)) (by decide), ?_,
    Nat.le_trans hheight (by decide), ?_⟩, rfl⟩
  · show (PageStatement.values ⟨_, term, _, _, _⟩).length ≤ bindingLimit
    rw [PageStatement.length_values, bindingLimit]
    dsimp only
    omega
  · show 11 ≤ stackLimit
    decide

/-- An aggregation by a period without conditions is small. -/
theorem isAccepted_by_period (p : Period) (column : DateColumn) (limit : Int64) :
    (Statement.groups ⟨⟨targetJoins find, []⟩, [.orText (p.expr column) noneKey],
      limit⟩).IsAccepted := by
  have hvalues : (⟨targetJoins find, []⟩ : Selection).values.length ≤ 1 := by
    rcases targetJoins_cases find with h | h <;> rw [h]
    · exact Nat.zero_le 1
    · exact Nat.le_refl 1
  have hheight : (⟨targetJoins find, []⟩ : Selection).height ≤ 4 := by
    rcases targetJoins_cases find with h | h <;> rw [h]
    · exact Nat.zero_le 4
    · exact Nat.le_refl 4
  refine ⟨⟨Nat.le_trans (Nat.succ_le_succ (size_targetJoins_le find)) (by decide), ?_,
    Nat.le_trans hheight (by decide), ?_⟩, rfl⟩
  · rw [Aggregation.length_values_by_period, bindingLimit]
    omega
  · show 6 ≤ stackLimit
    decide

end

/-! ### Nodes created on a day -/

/-- Whether a node was created on a day. -/
def NodeRow.fallsOn (d : Date) (r : NodeRow) : Bool :=
  match r.created with
  | .integer t => t.toInt / dayMs == d.dayNumber
  | _ => false

section

variable {store : Store} {r : NodeRow} {find : String} {d : Date}

/-- A node is counted under the day on which it was created, if that does not stray. -/
theorem NodeRow.dayKey_eq_iff_fallsOn (hinstant : r.created.IsInstant)
    (hstray : ∀ t, r.created = .integer t → ¬ IsStray t.toInt) (hd : d.IsUsual) :
    r.created.dayKey = d.toText ↔ r.fallsOn d = true := by
  unfold NodeRow.fallsOn
  cases hcreated : r.created with
  | null => exact iff_of_false (Datum.dayKey_null_ne hd) Bool.false_ne_true
  | integer t =>
    rw [beq_iff_eq]
    exact Datum.dayKey_eq_iff_of_not_isStray (hstray t hcreated) hd
  | real x =>
    rw [hcreated] at hinstant
    exact False.elim hinstant
  | text s =>
    rw [hcreated] at hinstant
    exact False.elim hinstant

theorem Clause.truth_created {view : NodeView} (c : Comparison) (b : Int64) :
    (Clause.plain "created" (.compare c) (.integer b)).truth view
      = (Datum.compare (some .integer) none (view.cell .created) (.integer b)).map c.holds := by
  have hroute : Route.ofField "created" = .ok (.column .created) := rfl
  exact Clause.positiveTruth_column (c := .plain "created" (.compare c) (.integer b)) hroute

/-- A point in time compares by its value; null compares with nothing. -/
theorem Datum.map_holds_compare_eq_some_iff {x : Datum} (hinstant : x.IsInstant) (c : Comparison)
    (b : Int64) : ((Datum.compare (some .integer) none x (.integer b)).map c.holds = some true) ↔
      ∃ t : Int64, x = .integer t ∧ c.holds (Ord.compare t.toInt b.toInt) = true := by
  cases x with
  | null =>
    refine iff_of_false ?_ ?_
    · rintro ⟨⟩
    · rintro ⟨t, ⟨⟩, -⟩
  | integer t =>
    show some (c.holds (Ord.compare t.toInt b.toInt)) = some true ↔ _
    rw [Option.some.injEq]
    constructor
    · exact fun h => ⟨t, rfl, h⟩
    · rintro ⟨t, ⟨⟩, h⟩
      exact h
  | real x => exact absurd hinstant id
  | text s => exact absurd hinstant id

theorem Comparison.atLeast_holds_compare (i j : Int) :
    atLeast.holds (Ord.compare i j) = true ↔ j ≤ i := by
  show (Ord.compare i j != .lt) = true ↔ _
  rw [bne_iff_ne, Ne, Int.compare_eq_lt, not_lt]

theorem Comparison.less_holds_compare (i j : Int) :
    less.holds (Ord.compare i j) = true ↔ i < j := by
  show (Ord.compare i j == .lt) = true ↔ _
  rw [beq_iff_eq, Int.compare_eq_lt]

theorem Store.selects_createdBetween (hinstant : r.created.IsInstant) (first last : Int64) :
    store.selects find (Entry.createdBetween first last) r = true ↔
      store.isTarget r find = true ∧
        ∃ t : Int64, r.created = .integer t ∧ first.toInt ≤ t.toInt ∧ t.toInt < last.toInt := by
  have htruth : ∀ (c : Comparison) (b : Int64),
      (Clause.plain "created" (.compare c) (.integer b)).truth (store.view r) = some true ↔
        ∃ t : Int64, r.created = .integer t ∧ c.holds (Ord.compare t.toInt b.toInt) = true :=
    fun c b => by
      rw [Clause.truth_created]
      exact Datum.map_holds_compare_eq_some_iff hinstant c b
  show (store.isTarget r find && ((Clause.truth (store.view r) _ == some true)
    && ((Clause.truth (store.view r) _ == some true) && true))) = true ↔ _
  simp only [Bool.and_true, Bool.and_eq_true, beq_iff_eq, htruth, Comparison.atLeast_holds_compare,
    Comparison.less_holds_compare]
  refine and_congr_right fun _ => ?_
  -- Both conditions are about the same cell.
  constructor
  · rintro ⟨⟨t, ht, hfirst⟩, t', ht', hlast⟩
    obtain rfl := Datum.integer.inj (ht.symm.trans ht')
    exact ⟨t, ht, hfirst, hlast⟩
  · rintro ⟨t, ht, hfirst, hlast⟩
    exact ⟨⟨t, ht, hfirst⟩, t, ht, hlast⟩

/-- The conditions of a day are met by the nodes that were created on it. -/
theorem Store.selected_createdBetween (htyped : store.WellTyped) (hd : d.IsUsual) :
    store.selected find (Entry.createdBetween d.start d.next.start)
      = (store.selected find []).filter (NodeRow.fallsOn d) := by
  obtain ⟨hfirst, hlast⟩ := hd.dayNumber
  have hstart := Date.toInt_start (d := d) (by omega)
  have hend := Date.toInt_start (d := d.next) (by rw [Date.dayNumber_next]; omega)
  rw [Date.dayNumber_next] at hend
  unfold Store.selected
  rw [List.filter_filter]
  refine List.filter_congr fun r hr => ?_
  -- Node by node: the creation lies between the starts of the two days just if it falls on the
  -- first.
  have hinstant : r.created.IsInstant := htyped.dates r hr .created rfl
  have hnone : store.selects find [] r = store.isTarget r find := Bool.and_true _
  rw [Bool.eq_iff_iff, Store.selects_createdBetween hinstant, hnone, Bool.and_eq_true, and_comm]
  refine and_congr_left fun _ => ?_
  rw [hstart, hend]
  unfold NodeRow.fallsOn dayMs
  cases hcreated : r.created with
  | integer t =>
    dsimp only
    rw [beq_iff_eq]
    constructor
    · rintro ⟨_, ⟨⟩, hge, hlt⟩
      omega
    · intro hday
      exact ⟨t, rfl, by omega, by omega⟩
  | _ => simp

end

/-! ### Counts of days -/

theorem Dimension.mem_keyLists_day {store : Store} {r : NodeRow} {k : String} :
    [k] ∈ Dimension.keyLists store r [.period .day .created] ↔ r.created.dayKey = k := by
  have hvalues : (Dimension.period .day .created).values store r
      = [r.created.dayOfMs?.map Period.day.label] := rfl
  rw [mem_keyLists_cons]
  simp only [mem_keyLists_nil, exists_eq_left, List.cons.injEq, and_true, mem_keysOf, hvalues,
    List.mem_singleton, List.cons_ne_nil, false_and, or_false]
  constructor
  · rintro ⟨k', hk', rfl⟩
    exact hk'
  · exact fun hk => ⟨k, hk, rfl⟩

namespace Groups

/-- The count under given keys; where there is no such group, none are counted. -/
def countOf (groups : Groups) (ks : List String) : Int := (groups.entries.lookup ks).getD 0

theorem CountsNodes.countOf_eq {nodes : List NodeRow} {keys : NodeRow → List (List String)}
    {groups : Groups} (h : groups.CountsNodes nodes keys) (ks : List String) :
    groups.countOf ks = (nodes.filter fun r => ks ∈ keys r).length := by
  unfold countOf
  cases hlookup : groups.entries.lookup ks with
  | some n =>
    obtain ⟨before, after, hentries, -⟩ := List.lookup_eq_some_iff.mp hlookup
    have hmem : (ks, n) ∈ groups.entries := by
      rw [hentries]
      exact List.mem_append_right _ List.mem_cons_self
    exact ((h.mem_iff ks n).mp hmem).1
  | none =>
    -- The keys of a node would stand in the table.
    have habsent := List.lookup_eq_none_iff.mp hlookup
    rcases Nat.eq_zero_or_pos (nodes.filter fun r => ks ∈ keys r).length with hzero | hpos
    · rw [hzero]
      rfl
    · have hmem := (h.mem_iff ks _).mpr ⟨rfl, Int.natCast_pos.mpr hpos⟩
      exact absurd (habsent _ hmem) (by simp)

end Groups

/-- An aggregation of all nodes of a target by the days of their creation. -/
structure Aggregation.IsDaily (a : Aggregation) : Prop where
  check : a.check = .ok ()
  dimensions : a.dimensions = [.period .day .created]
  conditions : a.conditions = []

namespace Aggregation

variable {db : Database} {store : Store} {a : Aggregation} {now : Int}

/-- The statement of an aggregation by days joins nothing but the tag of the target. -/
theorem IsDaily.exists_run (h : a.IsDaily) (hstore : db.store = .ok store) (now : Int) :
    ∃ tally, a.run db now = .ok tally := by
  have hes : Entry.resolveAll now a.conditions = .ok [] := by
    rw [h.conditions]
    rfl
  have hs := statement_by_period (a := { a with conditions := [] }) h.dimensions
    (show Selection.of a.find [] = .ok ⟨targetJoins a.find, []⟩ from rfl)
  obtain ⟨n, hrun⟩ := Aggregation.exists_run hstore
    (plan_eq_ok_iff.mpr ⟨h.check, [], hes, rfl, hs⟩) (isAccepted_by_period a.find .day .created _)
  exact ⟨_, hrun⟩

/-- There are no more days than nodes. -/
theorem IsDaily.length_groups_le (h : a.IsDaily) (hkeyed : store.Keyed) {s : GroupStatement}
    (hs : a.statement = .ok s) : (s.groups store).length ≤ store.nodes.length := by
  -- The only key of a node is the day of its creation.
  have hkeys : ∀ r ∈ store.selected a.find a.conditions,
      Dimension.keyLists store r a.dimensions ⊆ store.nodes.map fun r => [r.created.dayKey] := by
    intro r hr ks hks
    rw [h.dimensions] at hks
    obtain ⟨k, rfl⟩ := List.length_eq_one_iff.mp (Dimension.length_of_mem_keyLists hks)
    rw [Dimension.mem_keyLists_day] at hks
    exact List.mem_map.mpr ⟨r, (List.mem_filter.mp hr).1, by rw [hks]⟩
  have hle := GroupStatement.length_groups_le_of_keys hkeyed hs hkeys
  rwa [List.length_map] at hle

/-- A tally by days leaves none out if as many may be shown as there are nodes. -/
theorem IsDaily.showsAll (h : a.IsDaily) (hstore : db.store = .ok store) (hkeyed : store.Keyed)
    {tally : Tally} (hrun : a.run db now = .ok tally)
    (hle : (store.nodes.length : Int) ≤ a.cap.toInt) (hcap : a.cap ≠ Int64.maxValue) :
    a.ShowsAll tally := by
  obtain ⟨-, es, s, -, hes, hs, -, -⟩ := exists_answer hstore hrun
  have hdaily : ({ a with conditions := es } : Aggregation).IsDaily := by
    have hes' := hes
    rw [h.conditions] at hes'
    exact ⟨h.check, h.dimensions, (Except.ok.inj hes').symm⟩
  have hgroups := hdaily.length_groups_le hkeyed hs
  exact showsAll_of_length_le hstore hrun hes hs (by omega) hcap

end Aggregation

/-! ### Agreement -/

/-- A query that shows all nodes of a target that were created on a day, and few fields of them. -/
structure Query.ShowsDay (q : Query) (store : Store) (find : String) (d : Date) : Prop where
  find : q.find = find
  conditions : q.conditions = Entry.createdOn d
  offset : q.offset = 0
  limit : (store.nodes.length : Int) < q.limit.toInt
  term : ∃ term, SortTerm.ofField q.sortKey.field = .ok term
  selects : q.SelectsFew store

/-- Counting by days and asking for a day find the same number of nodes: for every day of the years
1 to 9998 the count under its text, in a tally that leaves no group out, is the number of nodes that
a query shows which asks for those created at or after the day and before the next day. -/
def Store.DaysAgree (store : Store) : Prop :=
  ∀ (a : Aggregation) (q : Query) (d : Date) (now : Int), a.IsDaily → d.IsUsual →
    q.ShowsDay store a.find d →
    ∃ tally page, a.run ⟨some store⟩ now = .ok tally ∧
      q.run ⟨some store⟩ (Database.fieldResolver ⟨some store⟩) now = .ok page ∧
      (a.ShowsAll tally → tally.groups.countOf [d.toText] = page.nodes.length)

section

variable {store : Store} {a : Aggregation} {q : Query} {d : Date} {now : Int}

/-- Both are answered, the count with the nodes that have the text of the day for a key and the
query with those that were created on it. -/
theorem Store.WellTyped.exists_day_answers (htyped : store.WellTyped) (ha : a.IsDaily)
    (hd : d.IsUsual) (hq : q.ShowsDay store a.find d) (now : Int) :
    ∃ tally page, a.run ⟨some store⟩ now = .ok tally ∧
      q.run ⟨some store⟩ (Database.fieldResolver ⟨some store⟩) now = .ok page ∧
      page.nodes.length = ((store.selected a.find []).filter (NodeRow.fallsOn d)).length ∧
      (a.ShowsAll tally → tally.groups.countOf [d.toText]
        = ((store.selected a.find []).filter fun r => r.created.dayKey = d.toText).length) := by
  have hstore : (⟨some store⟩ : Database).store = .ok store := rfl
  obtain ⟨tally, hrun⟩ := ha.exists_run hstore now
  obtain ⟨term, hterm⟩ := hq.term
  have hes : Entry.resolveAll now q.conditions
      = .ok (Entry.createdBetween d.start d.next.start) := by
    rw [hq.conditions]
    exact Entry.resolveAll_createdOn hd
  have hselection := Selection.of_createdBetween q.find d.start d.next.start
  have htarget : checkTarget q.find = .ok () := by
    rw [hq.find]
    exact Aggregation.checkTarget_of_check ha.check
  have hplan := Query.plan_of_selection htarget hes hselection hq.offset hq.limit hterm
  obtain ⟨s, hs, -, hpage⟩ := Query.finds_of_plan hstore htyped.keyed hplan hq.offset hq.limit
  obtain rfl := Except.ok.inj (hplan.symm.trans hs)
  obtain ⟨page, hpage, hlength⟩ :=
    hpage htyped (isAccepted_createdBetween q.find _ _ term _ _ _) hq.selects
  refine ⟨tally, page, hrun, hpage, ?_, fun hshown => ?_⟩
  · rw [Int.ofNat_inj.mp hlength, Aggregation.count_eq_length_selected htyped.keyed hselection,
      hq.find, Store.selected_createdBetween htyped hd]
  · obtain ⟨es, hes, -, hcounts⟩ := Aggregation.exists_counts hstore htyped.keyed hrun hshown
    rw [ha.conditions] at hes
    obtain rfl := Except.ok.inj hes
    rw [hcounts.countOf_eq, ha.dimensions]
    simp only [Dimension.mem_keyLists_day]

end

/-- A node that was created at a point in time. -/
def loneNode (t : Int64) : NodeRow := ⟨"n1", "Draft", none, none, .integer t, .null, .null⟩

/-- A store with this node only. -/
def loneStore (t : Int64) : Store where
  nodes := [loneNode t]
  tags := []
  fields := []

theorem wellTyped_loneStore (t : Int64) : (loneStore t).WellTyped where
  keyed := ⟨fun r hr => by rw [List.mem_singleton.mp hr]; rfl, List.nodup_singleton _⟩
  dates := by
    intro r hr k hk
    rw [List.mem_singleton.mp hr]
    cases k <;> trivial
  size := by
    show 1 < 2 ^ 63
    decide

/-- A query for all nodes that were created on a day. -/
def Query.createdOn (d : Date) : Query :=
  { Query.forTarget anyNode with conditions := Entry.createdOn d }

/-- All nodes by the days of their creation. -/
def Aggregation.daily : Aggregation := .along anyNode [.period .day .created]

theorem Aggregation.isDaily_daily : Aggregation.daily.IsDaily := ⟨rfl, rfl, rfl⟩

theorem Query.showsDay_createdOn {store : Store} (d : Date) (h : store.nodes.length < 100) :
    (Query.createdOn d).ShowsDay store anyNode d where
  find := rfl
  conditions := rfl
  offset := rfl
  limit := by
    show (store.nodes.length : Int) < 100
    omega
  term := by
    have hterm : SortTerm.ofField "created" = .ok (.column .created) := rfl
    exact ⟨_, hterm⟩
  selects := Query.selectsFew_of_none rfl store

/-- In a store with one node the count of a day is that of its key, and a query for the day shows
the node if it falls on it. -/
theorem exists_lone_answers (t : Int64) {d : Date} (hd : d.IsUsual) : ∃ tally page,
    Aggregation.daily.run ⟨some (loneStore t)⟩ 0 = .ok tally ∧
    (Query.createdOn d).run ⟨some (loneStore t)⟩ (Database.fieldResolver ⟨some (loneStore t)⟩) 0
      = .ok page ∧
    Aggregation.daily.ShowsAll tally ∧
    (tally.groups.countOf [d.toText] = if (Datum.integer t).dayKey = d.toText then 1 else 0) ∧
    page.nodes.length = if t.toInt / dayMs = d.dayNumber then 1 else 0 := by
  have hstore : (⟨some (loneStore t)⟩ : Database).store = .ok (loneStore t) := rfl
  have htyped := wellTyped_loneStore t
  have hq : (Query.createdOn d).ShowsDay (loneStore t) anyNode d :=
    Query.showsDay_createdOn d (by show 1 < 100; decide)
  obtain ⟨tally, page, hrun, hpage, hasked, hcounted⟩ :=
    htyped.exists_day_answers Aggregation.isDaily_daily hd hq 0
  have hshown := Aggregation.isDaily_daily.showsAll hstore htyped.keyed hrun
    (by show (1 : Int) ≤ _; decide) (by decide)
  -- Of one node there are as many as hold a property: one or none.
  have hlone : ∀ p : NodeRow → Bool,
      (((loneStore t).selected anyNode []).filter p).length = if p (loneNode t) then 1 else 0 := by
    intro p
    show (List.filter p [loneNode t]).length = _
    rw [List.filter_singleton]
    cases p (loneNode t) <;> rfl
  refine ⟨tally, page, hrun, hpage, hshown, ?_, ?_⟩
  · rw [hcounted hshown]
    show ((((loneStore t).selected anyNode []).filter _).length : Int) = _
    rw [hlone]
    simp only [decide_eq_true_eq, Nat.cast_ite, Nat.cast_one, Nat.cast_zero]
    rfl
  · rw [hasked]
    show (((loneStore t).selected anyNode []).filter _).length = _
    rw [hlone]
    simp only [NodeRow.fallsOn, loneNode, beq_iff_eq]

/-- In a store with one node counting and asking agree only if its key is that of its day. -/
theorem dayKey_of_daysAgree {t : Int64} {d : Date} (h : (loneStore t).DaysAgree) (hd : d.IsUsual) :
    (Datum.integer t).dayKey = d.toText ↔ t.toInt / dayMs = d.dayNumber := by
  have hq : (Query.createdOn d).ShowsDay (loneStore t) anyNode d :=
    Query.showsDay_createdOn d (by show 1 < 100; decide)
  obtain ⟨tally, page, hrun, hpage, hshown, hcount, hlength⟩ := exists_lone_answers t hd
  obtain ⟨tally', page', hrun', hpage', hagree⟩ := h _ _ d 0 Aggregation.isDaily_daily hd hq
  obtain rfl := Except.ok.inj (hrun.symm.trans hrun')
  obtain rfl := Except.ok.inj (hpage.symm.trans hpage')
  have hboth := hagree hshown
  rw [hcount, hlength] at hboth
  -- Each of the two numbers is zero or one.
  constructor
  · intro hkey
    by_contra hday
    rw [if_pos hkey, if_neg hday] at hboth
    exact absurd hboth (by decide)
  · intro hday
    by_contra hkey
    rw [if_neg hkey, if_pos hday] at hboth
    exact absurd hboth (by decide)

/-- **Counting by days agrees with asking for days** exactly where no point in time strays: if and
only if none of the given ones does, the two agree in all stores whose nodes were created at these.
-/
theorem Store.daysAgree_iff (instants : Set Int64) :
    (∀ store : Store, store.WellTyped →
      (∀ r ∈ store.nodes, ∀ t, r.created = .integer t → t ∈ instants) → store.DaysAgree) ↔
    ∀ t ∈ instants, ¬ IsStray t.toInt := by
  constructor
  · intro h t ht hstray
    -- One node is enough to tell the two apart.
    obtain ⟨d, hd, hdiffer⟩ := Datum.exists_dayKey_of_isStray hstray
    refine hdiffer (dayKey_of_daysAgree (h _ (wellTyped_loneStore t) fun r hr t' ht' => ?_) hd)
    rw [List.mem_singleton.mp hr] at ht'
    exact Datum.integer.inj ht' ▸ ht
  · intro h store htyped hcreated a q d now ha hd hq
    obtain ⟨tally, page, hrun, hpage, hasked, hcounted⟩ :=
      htyped.exists_day_answers ha hd hq now
    refine ⟨tally, page, hrun, hpage, fun hshown => ?_⟩
    rw [hcounted hshown, hasked]
    -- The same nodes are counted, by their keys and by the days on which they fall.
    refine congrArg (fun nodes : List NodeRow => (nodes.length : Int)) (List.filter_congr ?_)
    intro r hr
    have hstored := (List.mem_filter.mp hr).1
    rw [Bool.eq_iff_iff, decide_eq_true_eq]
    exact NodeRow.dayKey_eq_iff_fallsOn (htyped.dates r hstored .created rfl)
      (fun t ht => h t (hcreated r hstored t ht)) hd

/-- Before 1970 a whole second does not stray: a node of the last one of 1969 is counted under the
day that finds it. -/
theorem daysAgree_sample : ∃ tally page,
    Aggregation.daily.run ⟨some (loneStore (-1000))⟩ 0 = .ok tally ∧
    (Query.createdOn ⟨1969, 12, 31⟩).run ⟨some (loneStore (-1000))⟩
      (Database.fieldResolver ⟨some (loneStore (-1000))⟩) 0 = .ok page ∧
    tally.groups.countOf ["1969-12-31"] = page.nodes.length ∧ page.nodes.length = 1 := by
  have hd : (⟨1969, 12, 31⟩ : Date).IsUsual := ⟨by decide, by decide⟩
  have hnumber : (⟨1969, 12, 31⟩ : Date).dayNumber = -1 := by decide
  have hstray : ∀ t ∈ ({-1000} : Set Int64), ¬ IsStray t.toInt := by
    rintro t rfl
    unfold IsStray dayMs
    decide
  have hagree := (Store.daysAgree_iff {-1000}).mpr hstray (loneStore (-1000))
    (wellTyped_loneStore _) fun r hr t ht => by
      rw [List.mem_singleton.mp hr] at ht
      exact (Datum.integer.inj ht).symm
  obtain ⟨tally, page, hrun, hpage, hshown, -, hlength⟩ := exists_lone_answers (-1000) hd
  obtain ⟨tally', page', hrun', hpage', hsame⟩ := hagree _ _ _ 0 Aggregation.isDaily_daily hd
    (Query.showsDay_createdOn _ (by decide))
  obtain rfl := Except.ok.inj (hrun.symm.trans hrun')
  obtain rfl := Except.ok.inj (hpage.symm.trans hpage')
  exact ⟨tally, page, hrun, hpage, hsame hshown, hlength.trans (by rw [hnumber]; decide)⟩

/-- A node of the last millisecond of 1969 is counted under the first day of 1970, but a query for
the last day of 1969 finds it. -/
theorem not_daysAgree_before_1970 : (loneStore (-1)).WellTyped ∧
    ∃ tally page, Aggregation.daily.run ⟨some (loneStore (-1))⟩ 0 = .ok tally ∧
      Aggregation.daily.ShowsAll tally ∧
      (Query.createdOn ⟨1969, 12, 31⟩).run ⟨some (loneStore (-1))⟩
        (Database.fieldResolver ⟨some (loneStore (-1))⟩) 0 = .ok page ∧
      tally.groups.countOf ["1970-01-01"] = 1 ∧
      tally.groups.countOf ["1969-12-31"] = 0 ∧ page.nodes.length = 1 := by
  have hlast : (⟨1969, 12, 31⟩ : Date).IsUsual := ⟨by decide, by decide⟩
  have hfirst : (⟨1970, 1, 1⟩ : Date).IsUsual := ⟨by decide, by decide⟩
  have hnumber : (⟨1969, 12, 31⟩ : Date).dayNumber = -1 := by decide
  obtain ⟨tally, page, hrun, hpage, hshown, hcount, hlength⟩ := exists_lone_answers (-1) hlast
  obtain ⟨tally', -, hrun', -, -, hcount', -⟩ := exists_lone_answers (-1) hfirst
  obtain rfl := Except.ok.inj (hrun.symm.trans hrun')
  have hkey := (Datum.dayKey_eq_iff hfirst (-1)).mpr ⟨by decide, by decide⟩
  rw [if_pos hkey] at hcount'
  rw [hkey, if_neg (by decide)] at hcount
  exact ⟨wellTyped_loneStore _, tally, page, hrun, hshown, hpage, hcount', hcount,
    hlength.trans (by rw [hnumber]; decide)⟩

end GraphIndex
