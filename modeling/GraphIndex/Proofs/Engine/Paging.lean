import GraphIndex.Proofs.Engine.Answers
import GraphIndex.Proofs.Statement.Limits

/-!
# Pages one after the other

`Query.Pages` says what is fetched by requests for page after page, until a page says that there
are no more. `Query.pages_exact` says that the pages of a query are all nodes that its statement
selects, each once and in order, if the statement is accepted and few fields are selected; with a
statement that cannot be prepared every request fails.
-/

namespace GraphIndex

/-! ### Lists of selected nodes -/

namespace PageStatement

/-- One node comes before another: by the sort key, in descending order if this is wanted, or by its
id where the sort key is the same. -/
def Precedes (store : Store) (s : PageStatement) (r r' : NodeRow) : Prop :=
  let o := (s.sortBy.value store r).order (s.sortBy.value store r')
  o = (if s.descending then .gt else .lt) ∨ o = .eq ∧ (r.cell .id).order (r'.cell .id) = .lt

/-- All nodes that a statement selects, each once and in order. -/
structure Lists (store : Store) (s : PageStatement) (rows : List NodeRow) : Prop where
  nodup : rows.Nodup
  mem_iff : ∀ r, r ∈ rows ↔ r ∈ s.selection.nodes store
  sorted : rows.Pairwise (s.Precedes store)

variable {store : Store} {s : PageStatement}

theorem order_eq_lt_iff (r r' : NodeRow) :
    s.order store r r' = .lt ↔ s.Precedes store r r' := by
  unfold PageStatement.order Precedes
  rw [Ordering.then_eq_lt]
  cases s.descending with
  | true => simp [directed]
  | false => simp [directed]

theorem lists_nodes (h : store.WellTyped) (s : PageStatement) : s.Lists store (s.nodes store) where
  nodup := nodup_nodes store s
  mem_iff := fun _ => mem_nodes
  sorted := (pairwise_nodes h s).imp fun {r r'} => (order_eq_lt_iff r r').mp

/-- There is one such list only. -/
theorem Lists.eq_nodes (h : store.WellTyped) {rows : List NodeRow} (hrows : s.Lists store rows) :
    rows = s.nodes store :=
  PageStatement.eq_nodes h hrows.nodup hrows.mem_iff
    (hrows.sorted.imp fun {r r'} => (order_eq_lt_iff r r').mpr)

end PageStatement

theorem toInt_add_of_lt {a b : Int64} (ha : 0 ≤ a.toInt) (hb : 0 ≤ b.toInt)
    (h : a.toInt + b.toInt < 2 ^ 63) : (a + b).toInt = a.toInt + b.toInt := by
  rw [Int64.toInt_add]
  apply Int.bmod_eq_of_le <;> omega

/-! ### Parts of a list -/

namespace Page.Shows

variable {page : Page} {rows : List NodeRow} {limit : Int64} {start : Nat}

/-- A page of a list says that there are more just if it is full. -/
theorem hasMore_iff_le (h : page.Shows ((rows.drop start).take limit.toInt.toNat) limit)
    (hpos : 1 ≤ limit.toInt) :
    page.hasMore = true ↔ limit.toInt.toNat ≤ rows.length - start := by
  rw [h.hasMore_iff, List.length_take, List.length_drop]
  omega

/-- Where a page says that there are no more, the list ends with the page. -/
theorem length_le (h : page.Shows ((rows.drop start).take limit.toInt.toNat) limit)
    (hpos : 1 ≤ limit.toInt) (hmore : page.hasMore = false) :
    rows.length ≤ start + limit.toInt.toNat := by
  have hnot : ¬ limit.toInt.toNat ≤ rows.length - start := by
    rw [← h.hasMore_iff_le hpos, hmore]
    exact Bool.false_ne_true
  omega

theorem take_drop_eq (h : page.Shows ((rows.drop start).take limit.toInt.toNat) limit)
    (hpos : 1 ≤ limit.toInt) (hmore : page.hasMore = false) :
    (rows.drop start).take limit.toInt.toNat = rows.drop start := by
  have hend := h.length_le hpos hmore
  apply List.take_of_length_le
  rw [List.length_drop]
  omega

end Page.Shows

/-! ### Requests for page after page -/

namespace Query

/-- The request for the page after the page of a query. -/
def nextPage (q : Query) : Query := { q with offset := q.offset + q.limit }

/-- The pages that are fetched from the page of a query on, at any times, until one says that there
are no more. -/
inductive Pages (db : Database) : Query → List Page → Prop
  | last {q : Query} {page : Page} (now : Int) (hrun : q.run db db.fieldResolver now = .ok page)
      (hmore : page.hasMore = false) : Pages db q [page]
  | more {q : Query} {page : Page} {pages : List Page} (now : Int)
      (hrun : q.run db db.fieldResolver now = .ok page) (hmore : page.hasMore = true)
      (hrest : Pages db q.nextPage pages) : Pages db q (page :: pages)

variable {db : Database} {store : Store} {q : Query} {s : PageStatement}

theorem limit_pos (hcheck : q.check = .ok ()) : 1 ≤ q.limit.toInt := by
  obtain ⟨-, hlimit, -⟩ := check_eq_ok_iff.mp hcheck
  unfold checkLimit at hlimit
  split at hlimit
  · exact absurd hlimit (by rintro ⟨⟩)
  · next h =>
    rw [Int64.not_lt, Int64.le_iff_toInt_le] at h
    exact h

/-- The statement for another page differs in the offset only. -/
theorem plan_offset (hresolved : q.IsResolved) (hcheck : q.check = .ok ())
    (hstatement : q.statement = .ok s) {offset : Int64} (hoffset : 0 ≤ offset) (now : Int) :
    ({ q with offset := offset } : Query).plan now = .ok { s with offset := offset } := by
  obtain ⟨htarget, hlimit, -⟩ := check_eq_ok_iff.mp hcheck
  obtain ⟨hselection, hterm, hdescending, hslimit, -⟩ := statement_eq_ok_iff.mp hstatement
  refine plan_eq_ok_iff.mpr ⟨check_eq_ok_iff.mpr ⟨htarget, hlimit, Int64.not_lt.mpr hoffset⟩, ?_⟩
  refine ⟨_, resolve_eq_ok_iff.mpr ⟨_, hresolved.resolveAll now, rfl⟩, ?_⟩
  exact statement_eq_ok_iff.mpr ⟨hselection, hterm, hdescending, hslimit, rfl⟩

/-- Where dates are settled it does not matter when a request is made. -/
theorem run_eq_run (hresolved : q.IsResolved) (source : FieldSource) (now now' : Int) :
    q.run db source now = q.run db source now' := by
  have hplan : q.plan now = q.plan now' := by
    unfold Query.plan
    rw [hresolved now, hresolved now']
  unfold Query.run
  rw [hplan]

theorem IsResolved.offset (h : q.IsResolved) (offset : Int64) :
    ({ q with offset := offset } : Query).IsResolved :=
  fun now => resolve_eq_ok_iff.mpr ⟨_, h.resolveAll now, rfl⟩

/-- What can be fetched from a page on, if the page is always the same. -/
theorem Pages.eq_or_exists {page : Page} {pages : List Page}
    (hsame : ∀ {now page'}, q.run db db.fieldResolver now = .ok page' → page' = page)
    (h : Pages db q pages) : (page.hasMore = false ∧ pages = [page]) ∨
      (page.hasMore = true ∧ ∃ rest, Pages db q.nextPage rest ∧ pages = page :: rest) := by
  cases h with
  | last now hrun hmore =>
    obtain rfl := hsame hrun
    exact Or.inl ⟨hmore, rfl⟩
  | more now hrun hmore hrest =>
    obtain rfl := hsame hrun
    exact Or.inr ⟨hmore, _, hrest, rfl⟩

/-! ### Pages of a query -/

section

variable (hstore : db.store = .ok store) (htyped : store.WellTyped) (hresolved : q.IsResolved)
  (hcheck : q.check = .ok ()) (hstatement : q.statement = .ok s)
  (haccepted : (Statement.page s).IsAccepted) (hfew : q.SelectsFew store)

include hstore htyped hresolved hcheck hstatement haccepted hfew

/-- **Every page** shows its part of the list of selected nodes. -/
theorem exists_run_offset {offset : Int64} (hoffset : 0 ≤ offset) (now : Int) :
    ∃ page, ({ q with offset := offset } : Query).run db db.fieldResolver now = .ok page ∧
      page.Shows (((s.nodes store).drop offset.toInt.toNat).take q.limit.toInt.toNat) q.limit := by
  have hplan := plan_offset hresolved hcheck hstatement hoffset now
  obtain ⟨-, -, -, hslimit, -⟩ := statement_eq_ok_iff.mp hstatement
  -- The limits do not depend on where the page begins.
  have hrun :=
    exists_run hstore htyped hplan ((Statement.isAccepted_offset_iff s offset).mpr haccepted) hfew
  rw [← hslimit] at hrun ⊢
  exact hrun

/-- The pages from an offset on. -/
theorem exists_pages {offset : Int64} (hoffset : 0 ≤ offset)
    (hle : offset.toInt ≤ (s.nodes store).length) :
    ∃ pages, Pages db { q with offset := offset } pages ∧
      (∀ pages', Pages db { q with offset := offset } pages' → pages' = pages) ∧
      Node.ofRows ((s.nodes store).drop offset.toInt.toNat)
        = .ok (pages.flatMap fun p => p.nodes.map Node.withoutFields) := by
  have hpos := limit_pos hcheck
  have hlt : (s.nodes store).length < 2 ^ 63 :=
    lt_of_le_of_lt (PageStatement.length_nodes_le store s) htyped.size
  -- The number of nodes that are left goes down with every page.
  induction hleft : (s.nodes store).length - offset.toInt.toNat using Nat.strong_induction_on
    generalizing offset with
  | _ left ih =>
  have hnonneg : 0 ≤ offset.toInt := by
    rw [Int64.le_iff_toInt_le] at hoffset
    exact hoffset
  obtain ⟨page, hrun, hshows⟩ :=
    exists_run_offset hstore htyped hresolved hcheck hstatement haccepted hfew hoffset 0
  have hsame : ∀ {now page'}, ({ q with offset := offset } : Query).run db db.fieldResolver now
      = .ok page' → page' = page := by
    intro now page' hrun'
    rw [run_eq_run (hresolved.offset offset) _ now 0, hrun] at hrun'
    exact (Except.ok.inj hrun').symm
  cases hmore : page.hasMore with
  | false =>
    refine ⟨[page], Pages.last 0 hrun hmore, ?_, ?_⟩
    · intro pages' hpages'
      rcases hpages'.eq_or_exists hsame with ⟨-, heq⟩ | ⟨htrue, -⟩
      · exact heq
      · exact absurd (hmore.symm.trans htrue) (by decide)
    · rw [List.flatMap_singleton, ← hshows.nodes, hshows.take_drop_eq hpos hmore]
  | true =>
    have hfull := (hshows.hasMore_iff_le hpos).mp hmore
    -- A full page ends within the list, so that the next offset does not overflow.
    have hnext : (offset + q.limit).toInt = offset.toInt + q.limit.toInt := by
      apply toInt_add_of_lt hnonneg <;> omega
    have hnextNat : (offset + q.limit).toInt.toNat
        = offset.toInt.toNat + q.limit.toInt.toNat := by omega
    have hoffset' : 0 ≤ offset + q.limit := by
      rw [Int64.le_iff_toInt_le, hnext, Int64.toInt_zero]
      omega
    obtain ⟨pages, hpages, hunique, hnodes⟩ :=
      ih _ (by omega) hoffset' (by omega) rfl
    refine ⟨page :: pages, Pages.more 0 hrun hmore hpages, ?_, ?_⟩
    · intro pages' hpages'
      rcases hpages'.eq_or_exists hsame with ⟨hfalse, -⟩ | ⟨-, rest, hrest, heq⟩
      · exact absurd (hmore.symm.trans hfalse) (by decide)
      · rw [heq, hunique rest hrest]
    · rw [← List.take_append_drop q.limit.toInt.toNat ((s.nodes store).drop offset.toInt.toNat),
        List.drop_drop, List.flatMap_cons]
      rw [hnextNat] at hnodes
      exact Node.ofRows_append hshows.nodes hnodes

end

/-- A request whose statement is beyond the limits fails. -/
theorem run_eq_error (hstore : db.store = .ok store) {source : FieldSource} {now : Int}
    (hplan : q.plan now = .ok s) (hlimit : ¬ (Statement.page s).IsPrepared) :
    q.run db source now = .error .storage := by
  have hread : Query.read db s = .error .storage := by
    unfold Query.read
    rw [storeFor_eq_error hstore hlimit]
    rfl
  unfold Query.run
  rw [hplan]
  show Query.read db s >>= _ = _
  rw [hread]
  rfl

/-- **Paging loses and repeats nothing.** Where the statement is accepted and few fields are
selected there is one list of all selected nodes in the order asked for; the page of every request
shows its part of the list, and where it says that there are no more there are none; and page after
page is fetched until all of the list was shown. With a statement beyond the limits every request
fails. -/
theorem pages_exact (hstore : db.store = .ok store) (htyped : store.WellTyped)
    (hresolved : q.IsResolved) (hcheck : q.check = .ok ()) (hstart : q.offset = 0)
    (hstatement : q.statement = .ok s) :
    SortTerm.ofField q.sortKey.field = .ok s.sortBy ∧ s.descending = q.sortKey.descending ∧
    ((Statement.page s).IsAccepted → q.SelectsFew store → ∃ rows, s.Lists store rows ∧
      (∀ rows', s.Lists store rows' → rows' = rows) ∧
      (∀ now offset, 0 ≤ offset → ∃ page,
        ({ q with offset := offset } : Query).run db db.fieldResolver now = .ok page ∧
        page.Shows ((rows.drop offset.toInt.toNat).take q.limit.toInt.toNat) q.limit ∧
        (page.hasMore = false → rows.length ≤ offset.toInt.toNat + q.limit.toInt.toNat)) ∧
      ∃ pages, Pages db q pages ∧ (∀ pages', Pages db q pages' → pages' = pages) ∧
        Node.ofRows rows = .ok (pages.flatMap fun p => p.nodes.map Node.withoutFields)) ∧
    (¬ (Statement.page s).IsPrepared → ∀ now offset, 0 ≤ offset →
      ({ q with offset := offset } : Query).run db db.fieldResolver now = .error .storage) := by
  obtain ⟨-, hterm, hdescending, -, -⟩ := statement_eq_ok_iff.mp hstatement
  refine ⟨hterm, hdescending, fun haccepted hfew => ?_, fun hlimit now offset hoffset => ?_⟩
  · refine ⟨s.nodes store, PageStatement.lists_nodes htyped s,
      fun rows' hrows' => hrows'.eq_nodes htyped, fun now offset hoffset => ?_, ?_⟩
    · obtain ⟨page, hrun, hshows⟩ := exists_run_offset hstore htyped hresolved hcheck hstatement
        haccepted hfew hoffset now
      exact ⟨page, hrun, hshows, hshows.length_le (limit_pos hcheck)⟩
    · have hoffset : 0 ≤ q.offset := by
        rw [hstart]
        exact Int64.le_refl 0
      have hle : q.offset.toInt ≤ (s.nodes store).length := by
        rw [hstart, Int64.toInt_zero]
        omega
      obtain ⟨pages, hpages, hunique, hnodes⟩ :=
        exists_pages hstore htyped hresolved hcheck hstatement haccepted hfew hoffset hle
      rw [hstart, Int64.toInt_zero, Int.toNat_zero, List.drop_zero] at hnodes
      exact ⟨pages, hpages, hunique, hnodes⟩
  · refine run_eq_error hstore (plan_offset hresolved hcheck hstatement hoffset now) ?_
    rwa [Statement.isPrepared_offset_iff]

/-- All nodes, one to a page. -/
def sampleQueryByOne : Query := { Query.forTarget "*" with limit := 1 }

theorem wellTyped_sampleStore : sampleStore.WellTyped where
  keyed := keyed_sampleStore
  dates := by
    intro r hr k hk
    simp only [sampleStore, List.mem_cons, List.not_mem_nil, or_false] at hr
    rcases hr with rfl | rfl <;> cases k <;> trivial
  size := by decide

/-- The nodes of the sample are fetched one by one, the newest first. -/
theorem pages_sample : ∃ pages, Pages ⟨some sampleStore⟩ sampleQueryByOne pages ∧
    Node.ofRows sampleStore.nodes.reverse
      = .ok (pages.flatMap fun p => p.nodes.map Node.withoutFields) := by
  have hstore : (⟨some sampleStore⟩ : Database).store = .ok sampleStore := rfl
  have hstatement : sampleQueryByOne.statement
      = .ok ⟨⟨.empty, []⟩, .column .created, true, 1, 0⟩ := rfl
  obtain ⟨-, -, hwithin, -⟩ :=
    pages_exact hstore wellTyped_sampleStore (fun _ => rfl) rfl rfl hstatement
  obtain ⟨rows, -, hunique, -, pages, hpages, -, hnodes⟩ :=
    hwithin (by decide) (selectsFew_of_none rfl _)
  have hrows : sampleStore.nodes.reverse = rows := by
    refine hunique _ ⟨by decide, fun r => ?_, ?_⟩
    · have hselected : Selection.nodes sampleStore ⟨.empty, []⟩ = sampleStore.nodes := rfl
      rw [hselected, List.mem_reverse]
    · exact List.pairwise_pair.mpr (Or.inl (by decide))
  rw [hrows]
  exact ⟨pages, hpages, hnodes⟩

/-- Sixty-four comparisons with a field, each of which brings in a row. -/
def wideQuery : Query :=
  { Query.forTarget "*" with
    conditions := List.replicate 64 (.clause (.equalTo "status" (.bool true))) }

theorem exists_statement_wideQuery :
    ∃ s, wideQuery.statement = .ok s ∧ ¬ (Statement.page s).IsPrepared := by
  have hsize : wideQuery.statement.toOption.map (fun s => s.selection.joins.size) = some 64 := by
    decide +kernel
  obtain ⟨s, hs, hsize⟩ := Option.map_eq_some_iff.mp hsize
  refine ⟨s, eq_ok_of_toOption_eq_some hs, fun h => ?_⟩
  have htables : s.selection.joins.size + 1 ≤ tableLimit := h.tables
  rw [hsize] at htables
  exact absurd htables (by decide)

/-- A node that meets all comparisons of the wide query. -/
def wideNode : NodeRow := ⟨"n1", "Draft", none, none, .integer 1, .null, .null⟩

/-- A store with this node and its status. -/
def wideStore : Store := ⟨[wideNode], [], [⟨"n1", "status", "true", .integer 0⟩]⟩

theorem wellTyped_wideStore : wideStore.WellTyped where
  keyed := ⟨by decide, by decide⟩
  dates := by
    intro r hr k hk
    rw [List.mem_singleton.mp hr]
    cases k <;> trivial
  size := by decide

/-- Sixty-four comparisons are accepted and met by a node, but no page is ever fetched. -/
theorem not_pages_wide : wideStore.WellTyped ∧ wideQuery.IsResolved ∧ wideQuery.check = .ok () ∧
    (∃ s, wideQuery.statement = .ok s ∧ wideNode ∈ s.selection.nodes wideStore) ∧
    ¬ ∃ pages, Pages ⟨some wideStore⟩ wideQuery pages := by
  have hresolved : wideQuery.IsResolved := fun _ => rfl
  have hcheck : wideQuery.check = .ok () := rfl
  obtain ⟨s, hs, hlimit⟩ := exists_statement_wideQuery
  refine ⟨wellTyped_wideStore, hresolved, hcheck, ⟨s, hs, ?_⟩, ?_⟩
  · rw [Selection.mem_nodes_iff_matches wellTyped_wideStore.keyed (statement_eq_ok_iff.mp hs).1
      (List.mem_singleton_self _) fun t ht => absurd ht List.not_mem_nil]
    decide +kernel
  · rintro ⟨pages, hpages⟩
    have hfails : ∀ now, wideQuery.run ⟨some wideStore⟩
        (Database.fieldResolver ⟨some wideStore⟩) now = .error .storage :=
      fun now => run_eq_error rfl (plan_offset hresolved hcheck hs (Int64.le_refl 0) now)
        (by rwa [Statement.isPrepared_offset_iff])
    cases hpages with
    | last now hrun _ => exact absurd ((hfails now).symm.trans hrun) (by rintro ⟨⟩)
    | more now hrun _ _ => exact absurd ((hfails now).symm.trans hrun) (by rintro ⟨⟩)

end Query

end GraphIndex
