import GraphIndex.Proofs.Engine.Entries
import GraphIndex.Proofs.Engine.Totals
import GraphIndex.Proofs.Plan.GroupRows

/-!
# Counts of groups

The counts of a tally are right whatever the joins multiply: `groups.CountsNodes nodes keys` says
that the groups are those keys that some of the nodes has, each once and with the number of nodes
that have it. The tally of an aggregation that leaves no group out counts the selected nodes by the
combinations of their keys (`Aggregation.exists_counts`).
-/

namespace GraphIndex

/-! ### Counting nodes twice -/

section

variable {α β : Type}

/-- One more node is counted under each of its keys among those listed. -/
theorem sum_length_filter_cons [BEq β] [LawfulBEq β] (r : α) (nodes : List α) (ks : List β)
    (keys : α → List β) :
    (ks.map fun k => ((r :: nodes).filter fun r => k ∈ keys r).length).sum
      = (ks.filter fun k => k ∈ keys r).length
        + (ks.map fun k => (nodes.filter fun r => k ∈ keys r).length).sum := by
  induction ks with
  | nil => rfl
  | cons k ks ih =>
    rw [List.map_cons, List.sum_cons, ih, List.map_cons, List.sum_cons, List.filter_cons,
      List.filter_cons]
    by_cases hk : k ∈ keys r
    · simp only [hk, decide_true, if_true, List.length_cons]
      omega
    · simp only [hk, decide_false, Bool.false_eq_true, if_false]
      omega

/-- How many pairs there are of a key and a node that has it: by keys or by nodes. -/
theorem sum_length_filter [BEq β] [LawfulBEq β] {nodes : List α} {ks : List β}
    {keys : α → List β} (hks : ks.Nodup) (hnodup : ∀ r ∈ nodes, (keys r).Nodup)
    (hsub : ∀ r ∈ nodes, keys r ⊆ ks) :
    (ks.map fun k => (nodes.filter fun r => k ∈ keys r).length).sum
      = (nodes.map fun r => (keys r).length).sum := by
  induction nodes with
  | nil => simp
  | cons r nodes ih =>
    rw [List.forall_mem_cons] at hnodup hsub
    have hrest := ih hnodup.2 hsub.2
    -- All keys of `r` are listed, each once.
    have hown : (ks.filter fun k => k ∈ keys r).length = (keys r).length := by
      have hmem : ∀ k, k ∈ (ks.filter fun k => k ∈ keys r) ↔ k ∈ keys r := by
        intro k
        rw [List.mem_filter, decide_eq_true_eq]
        exact ⟨And.right, fun h => ⟨hsub.1 h, h⟩⟩
      exact ((List.perm_ext_iff_of_nodup (hks.filter _) hnodup.1).mpr hmem).length_eq
    rw [sum_length_filter_cons, hown, hrest, List.map_cons, List.sum_cons]

/-- Nodes that have at least one key each are no more than their keys, and as many exactly if none
has a second one. -/
theorem length_le_sum {nodes : List α} {keys : α → List β} (hne : ∀ r ∈ nodes, keys r ≠ []) :
    nodes.length ≤ (nodes.map fun r => (keys r).length).sum ∧
      ((nodes.map fun r => (keys r).length).sum = nodes.length ↔
        ∀ r ∈ nodes, (keys r).length = 1) := by
  induction nodes with
  | nil => exact ⟨Nat.le_refl _, fun _ r hr => absurd hr List.not_mem_nil, fun _ => rfl⟩
  | cons r nodes ih =>
    rw [List.forall_mem_cons] at hne
    obtain ⟨hle, hiff⟩ := ih hne.2
    -- Every node adds one at least, and the sum is larger by the keys beyond the first.
    have hpos : 0 < (keys r).length := List.length_pos_iff.mpr hne.1
    rw [List.map_cons, List.sum_cons, List.length_cons, List.forall_mem_cons, ← hiff]
    constructor
    · omega
    · constructor
      · intro h
        omega
      · rintro ⟨hone, hrest⟩
        omega

end

/-! ### Groups that count nodes -/

namespace Groups

/-- The groups are the keys that some node has, each once and with the number of such nodes. -/
structure CountsNodes (nodes : List NodeRow) (keys : NodeRow → List (List String))
    (groups : Groups) : Prop where
  once : groups.Keyed
  nodup : (groups.entries.map (·.1)).Nodup
  mem_iff : ∀ ks n, (ks, n) ∈ groups.entries ↔
    n = (nodes.filter fun r => ks ∈ keys r).length ∧ 0 < n

namespace CountsNodes

variable {nodes : List NodeRow} {keys : NodeRow → List (List String)} {groups : Groups}

/-- No group is larger than the total. -/
theorem le_length (h : groups.CountsNodes nodes keys) :
    ∀ entry ∈ groups.entries, 0 < entry.2 ∧ entry.2 ≤ nodes.length := by
  rintro ⟨ks, n⟩ hentry
  obtain ⟨hn, hpos⟩ := (h.mem_iff ks n).mp hentry
  have hle := List.length_filter_le (fun r => decide (ks ∈ keys r)) nodes
  constructor
  · exact hpos
  · show n ≤ _
    omega

/-- A node is counted under each of its keys. -/
theorem mem_keys (h : groups.CountsNodes nodes keys) {r : NodeRow} (hr : r ∈ nodes)
    {ks : List String} (hks : ks ∈ keys r) : ks ∈ groups.entries.map (·.1) := by
  have hmem : r ∈ nodes.filter fun r => ks ∈ keys r :=
    List.mem_filter.mpr ⟨hr, decide_eq_true hks⟩
  have hpos := List.length_pos_of_mem hmem
  have hentry := (h.mem_iff ks _).mpr ⟨rfl, by omega⟩
  exact List.mem_map.mpr ⟨_, hentry, rfl⟩

/-- All counts together are as many as the keys of all nodes. -/
theorem sum_eq (h : groups.CountsNodes nodes keys) (hnodup : ∀ r ∈ nodes, (keys r).Nodup) :
    (groups.entries.map (·.2)).sum = ((nodes.map fun r => (keys r).length).sum : Nat) := by
  rw [← sum_length_filter h.nodup hnodup fun r hr ks hks => h.mem_keys hr hks, List.map_map,
    Nat.cast_list_sum, List.map_map]
  congr 1
  refine List.map_congr_left fun entry hentry => ?_
  exact ((h.mem_iff entry.1 entry.2).mp hentry).1

end CountsNodes

end Groups

/-! ### Groups of a statement -/

/-- The nodes of a target that meet conditions. -/
def Store.selected (store : Store) (find : String) (es : List Entry) : List NodeRow :=
  store.nodes.filter (store.selects find es)

/-- The selected nodes that have given keys among their combinations. -/
def Aggregation.members (store : Store) (a : Aggregation) (ks : List String) : List NodeRow :=
  (store.selected a.find a.conditions).filter
    fun r => ks ∈ Dimension.keyLists store r a.dimensions

namespace GroupStatement

variable {store : Store} {a : Aggregation} {s : GroupStatement}

/-- The rows of a statement, each as its keys and its node. -/
def keyedRows (store : Store) (s : GroupStatement) : List (List String × NodeRow) :=
  (s.selection.rows store).map fun (r, σ) => (s.keysOf σ, r)

theorem groups_eq (store : Store) (s : GroupStatement) :
    s.groups store = (distinct ((s.keyedRows store).map (·.1))).map fun ks =>
      ⟨ks, countIds (((s.keyedRows store).filter (·.1 == ks)).map (·.2))⟩ := rfl

theorem nodup_keys_groups (store : Store) (s : GroupStatement) :
    ((s.groups store).map (·.keys)).Nodup := by
  have hkeys : (s.groups store).map (·.keys) = distinct ((s.keyedRows store).map (·.1)) := by
    rw [groups_eq, List.map_map]
    exact List.map_id _
  rw [hkeys]
  exact nodup_distinct _

theorem mem_keyedRows (hkeyed : store.Keyed) (h : a.statement = .ok s) {ks : List String}
    {r : NodeRow} : (ks, r) ∈ s.keyedRows store ↔ r ∈ a.members store ks := by
  have hrow := exists_row_iff hkeyed.uniqueIds h r ks
  unfold Aggregation.members Store.selected keyedRows
  simp only [List.mem_filter, decide_eq_true_eq, and_assoc]
  rw [← hrow, List.mem_map]
  constructor
  · rintro ⟨⟨r', σ⟩, hσ, heq⟩
    obtain ⟨hks, rfl⟩ := Prod.mk.inj heq
    exact ⟨σ, hσ, hks⟩
  · rintro ⟨σ, hσ, rfl⟩
    exact ⟨(r, σ), hσ, rfl⟩

/-- Among the rows with given keys there are as many ids as nodes that have the keys. -/
theorem countIds_keyedRows (hkeyed : store.Keyed) (h : a.statement = .ok s) (ks : List String) :
    countIds (((s.keyedRows store).filter (·.1 == ks)).map (·.2))
      = (a.members store ks).length := by
  -- A node has as many rows as its partners allow; only which nodes have one matters.
  have hmem : ∀ r, r ∈ ((s.keyedRows store).filter (·.1 == ks)).map (·.2) ↔
      r ∈ a.members store ks := by
    intro r
    rw [← mem_keyedRows hkeyed h, List.mem_map]
    constructor
    · rintro ⟨row, hrow, rfl⟩
      obtain ⟨hrow, hks⟩ := List.mem_filter.mp hrow
      rw [← beq_iff_eq.mp hks]
      exact hrow
    · intro hrow
      exact ⟨(ks, r), List.mem_filter.mpr ⟨hrow, beq_self_eq_true _⟩, rfl⟩
  have hnodes : a.members store ks ⊆ store.nodes :=
    fun r hr => (List.mem_filter.mp (List.mem_filter.mp hr).1).1
  have hnodup : (a.members store ks).Nodup := (hkeyed.nodup.filter _).filter _
  rw [countIds_eq_length hkeyed fun r hr => hnodes ((hmem r).mp hr)]
  refine ((List.perm_ext_iff_of_nodup (nodup_distinct _) hnodup).mpr fun r => ?_).length_eq
  rw [mem_distinct]
  exact hmem r

/-- **Groups of a statement** are the combinations of keys that some selected node has, each with
the number of these nodes. -/
theorem mem_groups (hkeyed : store.Keyed) (h : a.statement = .ok s) (g : GroupRow) :
    g ∈ s.groups store ↔ g.count = (a.members store g.keys).length ∧ 0 < g.count := by
  obtain ⟨ks, n⟩ := g
  have hkeys : ks ∈ (s.keyedRows store).map (·.1) ↔ 0 < (a.members store ks).length := by
    rw [List.length_pos_iff_exists_mem, List.mem_map]
    constructor
    · rintro ⟨⟨ks', r⟩, hrow, rfl⟩
      exact ⟨r, (mem_keyedRows hkeyed h).mp hrow⟩
    · rintro ⟨r, hr⟩
      exact ⟨(ks, r), (mem_keyedRows hkeyed h).mpr hr, rfl⟩
  rw [groups_eq, List.mem_map]
  show (∃ ks', _ ∧ _) ↔ n = (a.members store ks).length ∧ 0 < n
  constructor
  · rintro ⟨ks', hks', heq⟩
    rw [mem_distinct] at hks'
    obtain ⟨rfl, rfl⟩ := GroupRow.mk.inj heq
    rw [countIds_keyedRows hkeyed h]
    exact ⟨rfl, hkeys.mp hks'⟩
  · rintro ⟨rfl, hpos⟩
    refine ⟨ks, mem_distinct.mpr (hkeys.mpr hpos), ?_⟩
    rw [countIds_keyedRows hkeyed h]

end GroupStatement

/-! ### Complete answers -/

namespace GroupStatement

variable {store : Store} {a : Aggregation} {s : GroupStatement}

theorem exists_member_of_mem_groups (hkeyed : store.Keyed) (h : a.statement = .ok s)
    {g : GroupRow} (hg : g ∈ s.groups store) :
    ∃ r ∈ store.selected a.find a.conditions, g.keys ∈ Dimension.keyLists store r a.dimensions := by
  obtain ⟨hcount, hpos⟩ := (mem_groups hkeyed h g).mp hg
  rw [hcount] at hpos
  obtain ⟨r, hr⟩ := List.exists_mem_of_length_pos hpos
  obtain ⟨hselected, hkeys⟩ := List.mem_filter.mp hr
  exact ⟨r, hselected, of_decide_eq_true hkeys⟩

theorem length_keys_of_mem (hkeyed : store.Keyed) (h : a.statement = .ok s) :
    ∀ g ∈ s.groups store, g.keys.length = a.dimensions.length := by
  intro g hg
  obtain ⟨r, -, hkeys⟩ := exists_member_of_mem_groups hkeyed h hg
  exact Dimension.length_of_mem_keyLists hkeys

/-- There are no more groups than keys in a list that has those of all selected nodes. -/
theorem length_groups_le_of_keys (hkeyed : store.Keyed) (h : a.statement = .ok s)
    {kss : List (List String)} (hkss : ∀ r ∈ store.selected a.find a.conditions,
      Dimension.keyLists store r a.dimensions ⊆ kss) : (s.groups store).length ≤ kss.length := by
  have hsub : (s.groups store).map (·.keys) ⊆ kss := by
    intro ks hks
    obtain ⟨g, hg, rfl⟩ := List.mem_map.mp hks
    obtain ⟨r, hr, hkeys⟩ := exists_member_of_mem_groups hkeyed h hg
    exact hkss r hr hkeys
  -- No two groups have the same keys.
  have hle := (List.subperm_of_subset (nodup_keys_groups store s) hsub).length_le
  rwa [List.length_map] at hle

theorem mem_groups_of_mem_answer {g : GroupRow} (hg : g ∈ s.answer store) : g ∈ s.groups store :=
  List.mem_mergeSort.mp (List.mem_of_mem_take hg)

theorem nodup_keys_answer (store : Store) (s : GroupStatement) :
    ((s.answer store).map (·.keys)).Nodup := by
  have hsorted :
      (((s.groups store).mergeSort fun g g' => g.order g' != .gt).map (·.keys)).Nodup := by
    rw [((List.mergeSort_perm _ _).map _).nodup_iff]
    exact nodup_keys_groups store s
  exact hsorted.sublist ((List.take_sublist _ _).map _)

theorem length_answer_le (store : Store) (s : GroupStatement) :
    (s.answer store).length ≤ (s.groups store).length := by
  unfold answer
  rw [List.length_take, List.length_mergeSort]
  omega

/-- An answer with fewer groups than are wanted at most has all of them. -/
theorem answer_perm (h : (s.answer store).length < s.limit.toInt.toNat) :
    (s.answer store).Perm (s.groups store) := by
  unfold answer at h ⊢
  rw [List.length_take] at h
  rw [List.take_of_length_le (by omega)]
  exact List.mergeSort_perm _ _

/-- **Groups of a complete answer** count the selected nodes by the combinations of their keys. -/
theorem countsNodes_answer (hkeyed : store.Keyed) (h : a.statement = .ok s)
    (hdimensions : a.dimensions.length = 1 ∨ a.dimensions.length = 2)
    (hlength : (s.answer store).length < s.limit.toInt.toNat) :
    (Groups.ofRows a.dimensions.length (s.answer store)).CountsNodes
      (store.selected a.find a.conditions)
      (fun r => Dimension.keyLists store r a.dimensions) := by
  -- With different keys no two rows meet in one entry of the tables.
  have hkeys : ∀ g ∈ s.answer store, g.keys.length = a.dimensions.length :=
    fun g hg => length_keys_of_mem hkeyed h g (mem_groups_of_mem_answer hg)
  obtain ⟨honce, hentries⟩ := Groups.ofRows_spec hdimensions hkeys (nodup_keys_answer store s)
  refine ⟨honce, ?_, fun ks n => ?_⟩
  · rw [(hentries.map (·.1)).nodup_iff, List.map_map]
    exact nodup_keys_answer store s
  · have hrow : (ks, n) ∈ (s.answer store).map (fun g => (g.keys, (g.count : Int))) ↔
        ∃ m : Nat, n = m ∧ (⟨ks, m⟩ : GroupRow) ∈ s.groups store := by
      rw [List.mem_map]
      constructor
      · rintro ⟨g, hg, heq⟩
        obtain ⟨rfl, rfl⟩ := Prod.mk.inj heq
        exact ⟨g.count, rfl, mem_groups_of_mem_answer hg⟩
      · rintro ⟨m, rfl, hg⟩
        exact ⟨⟨ks, m⟩, (answer_perm hlength).mem_iff.mpr hg, rfl⟩
    rw [hentries.mem_iff, hrow]
    simp only [mem_groups hkeyed h]
    constructor
    · rintro ⟨m, rfl, rfl, hpos⟩
      exact ⟨rfl, Int.natCast_pos.mpr hpos⟩
    · rintro ⟨rfl, hpos⟩
      exact ⟨_, rfl, rfl, Int.natCast_pos.mp hpos⟩

end GroupStatement

namespace Tally

variable {a : Aggregation} {total : Nat} {rows : List GroupRow}

theorem truncatedAt_ofRows (h : (rows.length : Int) ≤ a.cap.toInt) :
    (ofRows a total rows).truncatedAt = none := by
  unfold ofRows
  rw [decide_eq_false (by omega)]
  rfl

/-- A tally that speaks of no further groups shows all that were answered. -/
theorem groups_ofRows (h : (ofRows a total rows).truncatedAt = none) :
    (rows.length : Int) ≤ a.cap.toInt ∧
      (ofRows a total rows).groups = Groups.ofRows a.dimensions.length rows := by
  have hcap : ¬ a.cap.toInt < rows.length := by
    intro hlt
    unfold ofRows at h
    rw [decide_eq_true hlt] at h
    exact absurd h (by simp)
  refine ⟨by omega, ?_⟩
  unfold ofRows
  rw [decide_eq_false hcap]
  rfl

/-- Along one dimension the groups of a tally stand in one table. -/
theorem flat_ofRows (hone : a.dimensions.length = 1) (hpercent : a.showPercent = true) :
    ∃ counts, (ofRows a total rows).groups = .flat counts ∧
      (ofRows a total rows).percentages = some (percentagesOf total counts) := by
  unfold ofRows Groups.ofRows
  simp only [hone, hpercent, if_true]
  exact ⟨_, rfl, rfl⟩

end Tally

/-! ### Counts of a run -/

namespace Aggregation

variable {db : Database} {store : Store} {a : Aggregation} {now : Int} {tally : Tally}

theorem dimensions_of_check (h : a.check = .ok ()) :
    a.dimensions.length = 1 ∨ a.dimensions.length = 2 := by
  unfold Aggregation.check at h
  obtain ⟨⟨⟩, -, h⟩ := bind_eq_ok_iff.mp h
  by_cases hwrong : a.dimensions.length = 0 ∨ 2 < a.dimensions.length
  · rw [if_pos hwrong] at h
    exact absurd h (by rintro ⟨⟩)
  · omega

/-- What a tally is made of. -/
theorem exists_answer (hstore : db.store = .ok store) (hrun : a.run db now = .ok tally) :
    (a.dimensions.length = 1 ∨ a.dimensions.length = 2) ∧
      ∃ es s selection, Entry.resolveAll now a.conditions = .ok es ∧
        ({ a with conditions := es } : Aggregation).statement = .ok s ∧
        Selection.of a.find es = .ok selection ∧
        tally = .ofRows a (selection.count store) (s.answer store) := by
  unfold Aggregation.run Aggregation.plan at hrun
  simp only [bind_eq_ok_iff, mapError_eq_ok_iff] at hrun
  obtain ⟨p, ⟨⟨⟩, hcheck, a', hresolve, s, hs, hp⟩, store', hfor, n, hn, htally⟩ := hrun
  obtain rfl := Except.ok.inj hp
  obtain rfl := Except.ok.inj htally
  obtain ⟨es, hes, rfl⟩ := resolve_eq_ok_iff.mp hresolve
  obtain ⟨selection, hselection, -, rfl⟩ := (total_eq_ok_iff hstore).mp hn
  rw [Query.eq_of_storeFor hstore hfor]
  exact ⟨dimensions_of_check hcheck, es, s, selection, hes, hs, hselection, rfl⟩

/-- Nothing is cut off: no further groups are spoken of. Where the cap is the largest number, one
more than it cannot be asked for, and a table as long as the cap is no whole answer. -/
def ShowsAll (a : Aggregation) (tally : Tally) : Prop :=
  tally.truncatedAt = none ∧
    (a.cap = Int64.maxValue → (tally.groups.size : Int) < Int64.maxValue.toInt)

theorem toInt_successor {cap : Int64} (h : 0 ≤ cap.toInt) : (successor cap).toInt
    = if cap = Int64.maxValue then cap.toInt else cap.toInt + 1 := by
  unfold successor
  split_ifs with hmax
  · rfl
  · have hle := Int64.toInt_le cap
    have hne : cap.toInt ≠ Int64.maxValue.toInt := fun h => hmax (Int64.toInt_inj.mp h)
    have hvalue : Int64.maxValue.toInt = 2 ^ 63 - 1 := rfl
    have hone : (1 : Int64).toInt = 1 := rfl
    rw [toInt_add_of_lt h (by decide) (by omega), hone]

/-- An answer in which nothing is cut off is shorter than what is asked for. -/
theorem length_lt_successor {cap : Int64} {n : Nat} (hle : (n : Int) ≤ cap.toInt)
    (hlast : cap = Int64.maxValue → (n : Int) < Int64.maxValue.toInt) :
    n < (successor cap).toInt.toNat := by
  rw [toInt_successor (by omega)]
  split_ifs with hmax
  · have hlt := hlast hmax
    rw [← hmax] at hlt
    omega
  · omega

/-- The number of selected nodes. -/
theorem count_eq_length_selected (hkeyed : store.Keyed) {find : String} {es : List Entry}
    {s : Selection} (h : Selection.of find es = .ok s) :
    s.count store = (store.selected find es).length := by
  have hmem : ∀ r ∈ store.nodes, r ∈ s.nodes store ↔ store.selects find es r = true := by
    intro r hr
    rw [Selection.mem_nodes_iff_selects hkeyed.uniqueIds h]
    exact ⟨And.right, fun hselects => ⟨hr, hselects⟩⟩
  rw [Selection.count_eq_length hkeyed, Selection.distinct_nodes hkeyed.nodup s hmem]
  rfl

/-- The counts of an aggregation that leaves no group out are right, however often the joins repeat
a node. -/
theorem exists_counts (hstore : db.store = .ok store) (hkeyed : store.Keyed)
    (hrun : a.run db now = .ok tally) (hshown : a.ShowsAll tally) :
    ∃ es, Entry.resolveAll now a.conditions = .ok es ∧
      tally.total = (store.selected a.find es).length ∧
      tally.groups.CountsNodes (store.selected a.find es)
        (fun r => Dimension.keyLists store r a.dimensions) := by
  obtain ⟨hdimensions, es, s, selection, hes, hs, hselection, rfl⟩ := exists_answer hstore hrun
  obtain ⟨htruncated, hlast⟩ := hshown
  obtain ⟨hcap, hgroups⟩ := Tally.groups_ofRows htruncated
  have hkeys : ∀ g ∈ s.answer store, g.keys.length = a.dimensions.length :=
    fun g hg => GroupStatement.length_keys_of_mem hkeyed hs g
      (GroupStatement.mem_groups_of_mem_answer hg)
  have hsize : (Groups.ofRows a.dimensions.length (s.answer store)).size
      = (s.answer store).length := by
    obtain ⟨-, hentries⟩ := Groups.ofRows_spec hdimensions hkeys
      (GroupStatement.nodup_keys_answer store s)
    rw [Groups.size_eq_length, hentries.length_eq, List.length_map]
  rw [hgroups, hsize] at hlast
  have hlimit : s.limit = successor a.cap := by
    obtain ⟨_, _, _, _, rfl⟩ := exists_parts hs
    rfl
  -- One group more than may be shown was asked for, and did not come.
  have hlength : (s.answer store).length < s.limit.toInt.toNat := by
    rw [hlimit]
    exact length_lt_successor hcap hlast
  refine ⟨es, hes, ?_, ?_⟩
  · exact congrArg Int.ofNat (count_eq_length_selected hkeyed hselection)
  · rw [hgroups]
    exact GroupStatement.countsNodes_answer hkeyed hs hdimensions hlength

end Aggregation

end GraphIndex
