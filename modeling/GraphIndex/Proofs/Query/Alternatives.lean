import GraphIndex.Proofs.Plan.Complement
import GraphIndex.Proofs.Query.ShortForms
import GraphIndex.Proofs.Statement.Limits
import GraphIndex.Proofs.Statement.Pages

/-!
# Lists of alternatives

A field may be given a list of values, and the key `or` a list of conditions. What such a list
selects is told by its items, each taken as conditions of its own
(`Shorthand.selects_alternatives`).

A list that holds no condition at all asks for nothing, and beside others an item without conditions
is left out: alone it selects every node, but no list on its account
(`Shorthand.not_selects_alternatives_empty`).
-/

namespace GraphIndex

/-! ### Trees that can be compiled -/

namespace Entry

/-- A tree that turns into a filter. -/
def Compiles (e : Entry) : Prop :=
  ∃ n f k, Yields (e.filter Filter.defaultStem false) n f k

theorem exists_yields_of_compiles {es : List Entry} (h : ∀ e ∈ es, e.Compiles) (n : Nat) :
    ∃ fs k, Yields (filters Filter.defaultStem false es) n fs k := by
  refine exists_yields_filters (fun e he i => ?_) n
  obtain ⟨_, _, _, hyields⟩ := h e he
  exact (e.exists_yields hyields false i).1

theorem exists_ofEntries_iff {es : List Entry} :
    (∃ f, Filter.ofEntries es = .ok f) ↔ ∀ e ∈ es, e.Compiles := by
  constructor
  · rintro ⟨f, hf⟩
    obtain ⟨fs, k, hfs, -⟩ := Filter.yields_of_ofEntries hf
    exact exists_yields_of_mem hfs
  · intro h
    obtain ⟨fs, k, hfs⟩ := exists_yields_of_compiles h 0
    exact ⟨_, Filter.ofEntries_of_yields hfs⟩

/-- A group turns into a filter if its members do. -/
theorem compiles_group_iff {kind : Connective} {members : List Entry} :
    (group kind members false).Compiles ↔ ∀ e ∈ members, e.Compiles := by
  constructor
  · rintro ⟨n, f, k, h⟩
    obtain ⟨fs, hfs, -⟩ := yields_group h
    exact exists_yields_of_mem hfs
  · intro h
    obtain ⟨fs, k, hfs⟩ := exists_yields_of_compiles h 0
    exact ⟨0, _, k, yields_bind.mpr ⟨fs, k, hfs, yields_pure.mpr ⟨rfl, rfl⟩⟩⟩

/-- An equality can be asked for of every field that can be asked for, whatever the value. -/
theorem compiles_equalTo_iff {field : String} {v : Operand} :
    (clause (.equalTo field v)).Compiles ↔ ∃ route, Route.ofField field = .ok route := by
  constructor
  · rintro ⟨n, f, k, h⟩
    obtain ⟨g, hg, -⟩ := yields_clause h
    exact hg.exists_route
  · rintro ⟨route, hroute⟩
    have hbecomes : ∃ g k, Clause.Becomes Filter.defaultStem (.equalTo field v) false 0 g k := by
      -- An equality has a form on every route, whatever its value.
      cases route with
      | column c => exact ⟨_, _, .column c hroute⟩
      | parentName => exact ⟨_, _, .parentName hroute fun h => absurd h Bool.false_ne_true⟩
      | parentTags => exact ⟨_, _, .parentTag hroute rfl rfl⟩
      | custom name => exact ⟨_, _, .field name _ hroute rfl rfl⟩
    obtain ⟨g, k, hg⟩ := hbecomes
    exact ⟨0, _, k, yields_bind.mpr ⟨_, _, hg.yields, yields_pure.mpr ⟨rfl, rfl⟩⟩⟩

/-! ### What a node meets -/

/-- Whether a node meets all of several trees; below a negation the tags of its parent are those
under the parent id. -/
def AllMet (store : Store) (r : NodeRow) (es : List Entry) : Prop :=
  ∀ t ∈ splitTruths (store.view r) (store.nestedView r) es, t = some true

/-- Whether a node meets a tree that holds a condition. -/
def IsMet (store : Store) (r : NodeRow) (e : Entry) : Prop :=
  e.hasClause = true ∧ e.splitTruth (store.view r) (store.nestedView r) = some true

variable {store : Store} {r : NodeRow} {es : List Entry}

theorem exists_mem_splitTruths_iff :
    (∃ t ∈ splitTruths (store.view r) (store.nestedView r) es, t = some true) ↔
      ∃ e ∈ es, IsMet store r e := by
  rw [exists_eq_right, splitTruths_eq_flatMap, List.mem_flatMap]
  refine exists_congr fun e => and_congr_right fun _ => ?_
  unfold IsMet
  cases e.hasClause <;> simp [eq_comm]

/-- Some member of a group has to be met, if the group holds a condition. -/
theorem allMet_any_iff : AllMet store r [group .any es false] ↔
    (anyHasClause es = true → ∃ e ∈ es, IsMet store r e) := by
  unfold AllMet
  rw [splitTruths, hasClause, splitTruths]
  cases hclause : anyHasClause es with
  | true =>
    rw [if_pos rfl, List.forall_mem_singleton, splitTruth, if_neg Bool.false_ne_true,
      Connective.fold_any_eq_true_iff, exists_mem_splitTruths_iff]
    exact (imp_iff_right rfl).symm
  | false =>
    -- Nothing is left of the group, so that nothing is asked.
    rw [if_neg Bool.false_ne_true]
    exact iff_of_true (fun t ht => absurd ht List.not_mem_nil)
      fun h => absurd h Bool.false_ne_true

theorem isMet_all_iff : IsMet store r (group .all es false) ↔
    anyHasClause es = true ∧ AllMet store r es := by
  unfold IsMet AllMet
  rw [hasClause, splitTruth, if_neg Bool.false_ne_true, Connective.fold_all_eq_true_iff]

theorem isMet_iff {e : Entry} :
    IsMet store r e ↔ anyHasClause [e] = true ∧ AllMet store r [e] := by
  unfold IsMet AllMet
  rw [anyHasClause, anyHasClause, Bool.or_false]
  refine and_congr_right fun hclause => ?_
  rw [splitTruths, if_pos hclause, splitTruths, List.forall_mem_singleton]

theorem anyHasClause_iff : anyHasClause es = true ↔ ∃ e ∈ es, e.hasClause = true := by
  induction es with
  | nil => simp [anyHasClause]
  | cons e es ih => rw [anyHasClause, Bool.or_eq_true, ih, List.exists_mem_cons_iff]

end Entry

namespace Shorthand

/-! ### What short forms select -/

/-- Conditions that can be read and compiled. -/
def Compiles (j : Json) : Prop := ∃ es f, entries j = .ok es ∧ Filter.ofEntries es = .ok f

/-- Whether conditions are compiled to a selection that has a node of a target. -/
def Keeps (store : Store) (find : String) (r : NodeRow) (j : Json) : Prop :=
  ∃ es s, entries j = .ok es ∧ Selection.of find es = .ok s ∧ r ∈ s.nodes store

/-- The query for the nodes of a target that meet conditions. -/
def request (find : String) (es : List Entry) : Query :=
  { Query.forTarget find with conditions := es }

/-- Whether the statement that conditions are compiled to, if they are, is accepted. -/
def IsAccepted (find : String) (j : Json) : Prop :=
  ∀ es s, entries j = .ok es → (request find es).statement = .ok s →
    (Statement.page s).IsAccepted

/-- Whether conditions are compiled to an accepted statement that selects a node of a target. -/
def Selects (store : Store) (find : String) (r : NodeRow) (j : Json) : Prop :=
  ∃ es s, entries j = .ok es ∧ (request find es).statement = .ok s ∧
    (Statement.page s).IsAccepted ∧ r ∈ s.nodes store

/-- Whether conditions that can be read hold a condition at all. -/
def Asks (j : Json) : Prop := ∃ es, entries j = .ok es ∧ Entry.anyHasClause es = true

variable {store : Store} {r : NodeRow} {find field : String} {j : Json} {items : List Json}
  {es : List Entry}

theorem statement_request_eq_ok_iff {s : PageStatement} : (request find es).statement = .ok s ↔
    ∃ selection, Selection.of find es = .ok selection ∧
      s = ⟨selection, .column .created, true, defaultLimit, 0⟩ := by
  have hterm : SortTerm.ofField "created" = .ok (.column .created) := rfl
  rw [Query.statement_eq_ok_iff]
  constructor
  · rintro ⟨hselection, hsortBy, hdescending, hlimit, hoffset⟩
    obtain ⟨selection, sortBy, descending, limit, offset⟩ := s
    obtain rfl := Except.ok.inj (hterm.symm.trans hsortBy)
    obtain rfl : descending = true := hdescending
    obtain rfl : limit = defaultLimit := hlimit
    obtain rfl : offset = 0 := hoffset
    exact ⟨selection, hselection, rfl⟩
  · rintro ⟨selection, hselection, rfl⟩
    exact ⟨hselection, hterm, rfl, rfl, rfl⟩

theorem isAccepted_of_statement {s : PageStatement} (hes : entries j = .ok es)
    (hs : (request find es).statement = .ok s) (h : (Statement.page s).IsAccepted) :
    IsAccepted find j := by
  intro es' s' hes' hs'
  obtain rfl := Except.ok.inj (hes.symm.trans hes')
  obtain rfl := Except.ok.inj (hs.symm.trans hs')
  exact h

theorem selects_iff : Selects store find r j ↔ IsAccepted find j ∧ Keeps store find r j := by
  constructor
  · rintro ⟨es, s, hes, hs, haccepted, hr⟩
    obtain ⟨selection, hselection, rfl⟩ := statement_request_eq_ok_iff.mp hs
    exact ⟨isAccepted_of_statement hes hs haccepted, es, selection, hes, hselection,
      PageStatement.mem_nodes.mp hr⟩
  · rintro ⟨haccepted, es, selection, hes, hselection, hr⟩
    have hs := statement_request_eq_ok_iff.mpr ⟨selection, hselection, rfl⟩
    exact ⟨es, _, hes, hs, haccepted es _ hes hs, PageStatement.mem_nodes.mpr hr⟩

theorem compiles_iff (h : entries j = .ok es) : Compiles j ↔ ∀ e ∈ es, e.Compiles := by
  rw [← Entry.exists_ofEntries_iff]
  constructor
  · rintro ⟨es', f, hes', hf⟩
    obtain rfl := Except.ok.inj (h.symm.trans hes')
    exact ⟨f, hf⟩
  · exact fun ⟨f, hf⟩ => ⟨es, f, h, hf⟩

theorem keeps_iff (hids : store.UniqueIds) (h : entries j = .ok es) :
    Keeps store find r j ↔
      (∀ e ∈ es, e.Compiles) ∧ store.IsOf find r ∧ Entry.AllMet store r es := by
  rw [← Entry.exists_ofEntries_iff]
  constructor
  · rintro ⟨es', s, hes', hs, hr⟩
    obtain rfl := Except.ok.inj (h.symm.trans hes')
    obtain ⟨f, hf, -⟩ := Selection.of_eq_ok_iff.mp hs
    obtain ⟨hmem, htarget, hmet⟩ := (Selection.mem_nodes_iff hids hs r).mp hr
    exact ⟨⟨f, hf⟩, ⟨hmem, htarget⟩, hmet⟩
  · rintro ⟨⟨f, hf⟩, ⟨hmem, htarget⟩, hmet⟩
    obtain ⟨s, hs⟩ : ∃ s, Selection.of find es = .ok s :=
      ⟨_, Selection.of_eq_ok_iff.mpr ⟨f, hf, rfl⟩⟩
    exact ⟨es, s, h, hs, (Selection.mem_nodes_iff hids hs r).mpr ⟨hmem, htarget, hmet⟩⟩

/-! ### Values of a field -/

/-- The conditions of a field that is no connective are those of its value. -/
theorem entries_field (hkey : connectiveOf? field = none) {value : Json}
    (h : fieldEntries field value = .ok es) : entries (.object [(field, value)]) = .ok es := by
  rw [entries, memberEntries_cons_eq_ok_iff]
  refine ⟨es, [], ?_, rfl, (List.append_nil es).symm⟩
  rw [hkey]
  exact h

theorem entries_equal (hkey : connectiveOf? field = none) {v : Operand} (hv : scalar? j = some v) :
    entries (.object [(field, .object [("eq", j)])]) = .ok [.clause (.equalTo field v)] := by
  have hclause : operatorClause field "eq" j = .ok (.clause (.equalTo field v)) := by
    simp only [operatorClause, operatorOfKey, hv]
    rfl
  refine entries_field hkey ?_
  rw [fieldEntries, operatorEntries_cons_eq_ok_iff]
  exact ⟨_, [], hclause, rfl, rfl⟩

/-- A list of values has an equality for each of them. -/
theorem exists_itemEntries (field : String) (hscalar : ∀ j ∈ items, (scalar? j).isSome = true) :
    ∃ es, itemEntries field items = .ok es ∧
      ∀ e, e ∈ es ↔ ∃ j ∈ items, ∃ v, scalar? j = some v ∧ e = .clause (.equalTo field v) := by
  induction items with
  | nil => exact ⟨[], rfl, fun e => by simp⟩
  | cons j rest ih =>
    rw [List.forall_mem_cons] at hscalar
    obtain ⟨v, hv⟩ := Option.isSome_iff_exists.mp hscalar.1
    obtain ⟨es, hes, hmem⟩ := ih hscalar.2
    refine ⟨.clause (.equalTo field v) :: es, ?_, fun e => ?_⟩
    · rw [itemEntries, hv, hes]
      rfl
    · rw [List.mem_cons, hmem, List.exists_mem_cons_iff, hv]
      simp only [Option.some.injEq, exists_eq_left']

/-! ### Lists of conditions -/

/-- The trees of a list of conditions are those of its items, those of one item joined. -/
theorem mem_of_nestedEntries (h : nestedEntries items = .ok es) :
    (∀ j ∈ items, ∃ fs, entries j = .ok fs) ∧
      ∀ e, e ∈ es ↔ ∃ j ∈ items, ∃ fs, entries j = .ok fs ∧ e ∈ joinNested fs := by
  induction items generalizing es with
  | nil =>
    obtain rfl := Except.ok.inj h
    exact ⟨fun j hj => absurd hj List.not_mem_nil, fun e => by simp⟩
  | cons j rest ih =>
    obtain ⟨fs, later, hfs, hlater, rfl⟩ := nestedEntries_cons_eq_ok_iff.mp h
    obtain ⟨hread, hmem⟩ := ih hlater
    refine ⟨List.forall_mem_cons.mpr ⟨⟨fs, hfs⟩, hread⟩, fun e => ?_⟩
    rw [List.mem_append, hmem, List.exists_mem_cons_iff, hfs]
    simp only [Except.ok.injEq, exists_eq_left']

theorem exists_nestedEntries (h : ∀ j ∈ items, ∃ fs, entries j = .ok fs) :
    ∃ es, nestedEntries items = .ok es := by
  induction items with
  | nil => exact ⟨[], rfl⟩
  | cons j rest ih =>
    rw [List.forall_mem_cons] at h
    obtain ⟨fs, hfs⟩ := h.1
    obtain ⟨later, hlater⟩ := ih h.2
    exact ⟨_, nestedEntries_cons_eq_ok_iff.mpr ⟨fs, later, hfs, hlater, rfl⟩⟩

/-- The conditions under a connective are a group. -/
theorem entries_connective {key : String} {kind : Connective} (hkey : connectiveOf? key = some kind)
    {value : Json} : entries (.object [(key, value)]) = .ok es ↔
      ∃ items fs, value = .array items ∧ nestedEntries items = .ok fs
        ∧ es = [.group kind fs false] := by
  rw [entries, memberEntries_cons_eq_ok_iff, hkey]
  dsimp only
  constructor
  · rintro ⟨fs, later, hfs, hlater, rfl⟩
    obtain rfl := Except.ok.inj hlater
    rw [List.append_nil]
    exact groupEntries_eq_ok_iff.mp hfs
  · intro h
    exact ⟨es, [], groupEntries_eq_ok_iff.mpr h, rfl, (List.append_nil es).symm⟩

theorem compiles_joinNested_iff : (∀ e ∈ joinNested es, e.Compiles) ↔ ∀ e ∈ es, e.Compiles := by
  match es with
  | [] => exact Iff.rfl
  | [e] => exact Iff.rfl
  | e :: e' :: rest => exact List.forall_mem_singleton.trans Entry.compiles_group_iff

theorem anyHasClause_joinNested (es : List Entry) :
    Entry.anyHasClause (joinNested es) = Entry.anyHasClause es := by
  match es with
  | [] => rfl
  | [e] => rfl
  | e :: e' :: rest => exact Bool.or_false _

/-- The trees of one item are joined to one that is met if all of them are. -/
theorem exists_isMet_joinNested_iff : (∃ e ∈ joinNested es, Entry.IsMet store r e) ↔
    Entry.anyHasClause es = true ∧ Entry.AllMet store r es := by
  match es with
  | [] => simp [joinNested, Entry.anyHasClause]
  | [e] => simp only [joinNested, List.mem_singleton, exists_eq_left, Entry.isMet_iff]
  | e :: e' :: rest =>
    simp only [joinNested, List.mem_singleton, exists_eq_left, Entry.isMet_all_iff]

/-- A list of conditions holds a condition if one of its items does. -/
theorem anyHasClause_of_nestedEntries (h : nestedEntries items = .ok es) :
    Entry.anyHasClause es = true ↔ ∃ j ∈ items, Asks j := by
  rw [Entry.anyHasClause_iff]
  constructor
  · rintro ⟨e, he, hclause⟩
    obtain ⟨j, hj, fs, hfs, he'⟩ := ((mem_of_nestedEntries h).2 e).mp he
    refine ⟨j, hj, fs, hfs, ?_⟩
    rw [← anyHasClause_joinNested]
    exact Entry.anyHasClause_iff.mpr ⟨e, he', hclause⟩
  · rintro ⟨j, hj, fs, hfs, hclause⟩
    rw [← anyHasClause_joinNested, Entry.anyHasClause_iff] at hclause
    obtain ⟨e, he, hclause⟩ := hclause
    exact ⟨e, ((mem_of_nestedEntries h).2 e).mpr ⟨j, hj, fs, hfs, he⟩, hclause⟩

/-- A tree of a list of conditions is met if some item holds a condition and all of its trees are
met. -/
theorem exists_isMet_of_nestedEntries (h : nestedEntries items = .ok es) :
    (∃ e ∈ es, Entry.IsMet store r e) ↔ ∃ j ∈ items, ∃ fs, entries j = .ok fs ∧
      Entry.anyHasClause fs = true ∧ Entry.AllMet store r fs := by
  constructor
  · rintro ⟨e, he, hmet⟩
    obtain ⟨j, hj, fs, hfs, he'⟩ := ((mem_of_nestedEntries h).2 e).mp he
    exact ⟨j, hj, fs, hfs, exists_isMet_joinNested_iff.mp ⟨e, he', hmet⟩⟩
  · rintro ⟨j, hj, fs, hfs, hmet⟩
    obtain ⟨e, he, hmet⟩ := exists_isMet_joinNested_iff.mpr hmet
    exact ⟨e, ((mem_of_nestedEntries h).2 e).mpr ⟨j, hj, fs, hfs, he⟩, hmet⟩

/-! ### Items by themselves -/

/-- A group of alternatives selects the nodes that meet one of them, if there is one at all. -/
theorem keeps_any_iff (hids : store.UniqueIds) (h : entries j = .ok [.group .any es false]) :
    Keeps store find r j ↔ (∀ e ∈ es, e.Compiles) ∧ store.IsOf find r ∧
      (Entry.anyHasClause es = true → ∃ e ∈ es, Entry.IsMet store r e) := by
  rw [keeps_iff hids h, List.forall_mem_singleton, Entry.compiles_group_iff,
    Entry.allMet_any_iff]

theorem keeps_of_group_nil (hids : store.UniqueIds) {kind : Connective}
    (h : entries j = .ok [.group kind [] false]) :
    Keeps store find r j ↔ store.IsOf find r := by
  rw [keeps_iff hids h, List.forall_mem_singleton, Entry.compiles_group_iff]
  have hmet : Entry.AllMet store r [.group kind [] false] := fun t ht => absurd ht List.not_mem_nil
  simp [hmet]

theorem keeps_equal_iff (hids : store.UniqueIds) (hkey : connectiveOf? field = none)
    (hscalar : (scalar? j).isSome = true) :
    Keeps store find r (.object [(field, .object [("eq", j)])]) ↔
      (∃ route, Route.ofField field = .ok route) ∧ store.IsOf find r ∧
        ∃ v, scalar? j = some v ∧ Entry.IsMet store r (.clause (.equalTo field v)) := by
  obtain ⟨v, hv⟩ := Option.isSome_iff_exists.mp hscalar
  rw [keeps_iff hids (entries_equal hkey hv), List.forall_mem_singleton,
    Entry.compiles_equalTo_iff, hv]
  simp only [Option.some.injEq, exists_eq_left', Entry.isMet_iff]
  exact and_congr_right fun _ => and_congr_right fun _ => (and_iff_right rfl).symm

/-- A list of equalities for values of which there is one. -/
theorem keeps_equalities_iff (hids : store.UniqueIds) {j' : Json}
    (h : entries j' = .ok [.group .any es false]) (hne : ∃ j ∈ items, (scalar? j).isSome = true)
    (hmem : ∀ e, e ∈ es ↔ ∃ j ∈ items, ∃ v, scalar? j = some v ∧ e = .clause (.equalTo field v)) :
    Keeps store find r j' ↔ (∃ route, Route.ofField field = .ok route) ∧ store.IsOf find r ∧
      ∃ j ∈ items, ∃ v, scalar? j = some v ∧ Entry.IsMet store r (.clause (.equalTo field v)) := by
  obtain ⟨e, he⟩ : ∃ e, e ∈ es := by
    obtain ⟨j, hj, hscalar⟩ := hne
    obtain ⟨v, hv⟩ := Option.isSome_iff_exists.mp hscalar
    exact ⟨_, (hmem _).mpr ⟨j, hj, v, hv, rfl⟩⟩
  have hclauses : ∀ e ∈ es, ∃ v, e = .clause (.equalTo field v) := by
    intro e he
    obtain ⟨_, _, v, _, rfl⟩ := (hmem e).mp he
    exact ⟨v, rfl⟩
  -- All alternatives ask about one field, so that one of them decides for all.
  have hcompiles : (∀ e ∈ es, e.Compiles) ↔ ∃ route, Route.ofField field = .ok route := by
    constructor
    · intro hall
      obtain ⟨v, rfl⟩ := hclauses e he
      exact Entry.compiles_equalTo_iff.mp (hall _ he)
    · intro hroute e' he'
      obtain ⟨v, rfl⟩ := hclauses e' he'
      exact Entry.compiles_equalTo_iff.mpr hroute
  have hclause : Entry.anyHasClause es = true := by
    obtain ⟨v, rfl⟩ := hclauses e he
    exact Entry.anyHasClause_iff.mpr ⟨_, he, rfl⟩
  have hmet : (∃ e ∈ es, Entry.IsMet store r e) ↔ ∃ j ∈ items, ∃ v, scalar? j = some v ∧
      Entry.IsMet store r (.clause (.equalTo field v)) := by
    constructor
    · rintro ⟨e', he', hmet⟩
      obtain ⟨j, hj, v, hv, rfl⟩ := (hmem e').mp he'
      exact ⟨j, hj, v, hv, hmet⟩
    · rintro ⟨j, hj, v, hv, hmet⟩
      exact ⟨_, (hmem _).mpr ⟨j, hj, v, hv, rfl⟩, hmet⟩
  rw [keeps_any_iff hids h, hcompiles, imp_iff_right hclause, hmet]

/-- Under a key that joins conditions only the list without values can be read. -/
theorem keeps_values_of_connective (hids : store.UniqueIds) {kind : Connective}
    (hkey : connectiveOf? field = some kind) (hscalar : ∀ j ∈ items, (scalar? j).isSome = true) :
    Keeps store find r (.object [(field, .array items)]) ↔ items = [] ∧ store.IsOf find r := by
  cases items with
  | nil =>
    rw [keeps_of_group_nil hids ((entries_connective hkey).mpr ⟨[], [], rfl, rfl, rfl⟩)]
    exact (and_iff_right rfl).symm
  | cons j rest =>
    -- No value is a list of conditions or an object of them.
    refine iff_of_false ?_ fun h => absurd h.1 (List.cons_ne_nil _ _)
    rintro ⟨_, _, hes, -⟩
    obtain ⟨_, fs, harray, hfs, -⟩ := (entries_connective hkey).mp hes
    obtain rfl := Json.array.inj harray
    obtain ⟨es, hes⟩ := (mem_of_nestedEntries hfs).1 j List.mem_cons_self
    have hj := hscalar j List.mem_cons_self
    cases j <;> first | exact absurd hj Bool.false_ne_true | exact absurd hes (by rintro ⟨⟩)

/-- A list of values selects the nodes that one of the values selects. Without values it asks for
nothing. -/
theorem keeps_values_iff (hids : store.UniqueIds)
    (hscalar : ∀ j ∈ items, (scalar? j).isSome = true) :
    Keeps store find r (.object [(field, .array items)]) ↔
      (∃ j ∈ items, Keeps store find r (.object [(field, .object [("eq", j)])])) ∨
        items = [] ∧ store.IsOf find r := by
  cases hkey : connectiveOf? field with
  | some kind =>
    -- The object of the equality is no list, so that no value alone can be read either.
    have hobject :
        ¬ ∃ j ∈ items, Keeps store find r (.object [(field, .object [("eq", j)])]) := by
      rintro ⟨j, -, _, _, hes, -⟩
      obtain ⟨_, _, harray, -⟩ := (entries_connective hkey).mp hes
      exact absurd harray (by rintro ⟨⟩)
    rw [or_iff_right hobject, keeps_values_of_connective hids hkey hscalar]
  | none =>
    obtain ⟨es, hes, hmem⟩ := exists_itemEntries field hscalar
    have hgroup : entries (.object [(field, .array items)]) = .ok [.group .any es false] := by
      refine entries_field hkey ?_
      rw [fieldEntries, hes]
      rfl
    cases items with
    | nil =>
      obtain rfl := Except.ok.inj hes
      rw [keeps_of_group_nil hids hgroup]
      simp
    | cons j rest =>
      have hne : ∃ j' ∈ j :: rest, (scalar? j').isSome = true :=
        ⟨j, List.mem_cons_self, hscalar j List.mem_cons_self⟩
      rw [or_iff_left fun h => absurd h.1 (List.cons_ne_nil _ _),
        keeps_equalities_iff hids hgroup hne hmem]
      constructor
      · rintro ⟨hroute, hof, j', hj', hmet⟩
        exact ⟨j', hj', (keeps_equal_iff hids hkey (hscalar j' hj')).mpr ⟨hroute, hof, hmet⟩⟩
      · rintro ⟨j', hj', hkeeps⟩
        obtain ⟨hroute, hof, hmet⟩ := (keeps_equal_iff hids hkey (hscalar j' hj')).mp hkeeps
        exact ⟨hroute, hof, j', hj', hmet⟩

/-- Conditions under `or` that can be compiled one by one are a group of trees that can. -/
theorem exists_entries_or (h : ∀ j ∈ items, Compiles j) :
    ∃ es, nestedEntries items = .ok es ∧
      entries (.object [("or", .array items)]) = .ok [.group .any es false] ∧
      ∀ e ∈ es, e.Compiles := by
  have hread : ∀ j ∈ items, ∃ fs, entries j = .ok fs := by
    intro j hj
    obtain ⟨fs, -, hfs, -⟩ := h j hj
    exact ⟨fs, hfs⟩
  obtain ⟨es, hes⟩ := exists_nestedEntries hread
  refine ⟨es, hes, (entries_connective rfl).mpr ⟨items, es, rfl, hes, rfl⟩, fun e he => ?_⟩
  obtain ⟨j, hj, fs, hfs, he'⟩ := ((mem_of_nestedEntries hes).2 e).mp he
  exact compiles_joinNested_iff.mpr ((compiles_iff hfs).mp (h j hj)) e he'

theorem compiles_or (h : ∀ j ∈ items, Compiles j) :
    Compiles (.object [("or", .array items)]) := by
  obtain ⟨es, -, hgroup, hcompiles⟩ := exists_entries_or h
  exact (compiles_iff hgroup).mpr
    (List.forall_mem_singleton.mpr (Entry.compiles_group_iff.mpr hcompiles))

/-- Conditions under `or` keep the nodes that an item which holds a condition keeps, and all nodes
if there is no such item. -/
theorem keeps_or_iff (hids : store.UniqueIds) (h : ∀ j ∈ items, Compiles j) :
    Keeps store find r (.object [("or", .array items)]) ↔
      (∃ j ∈ items, Asks j ∧ Keeps store find r j) ∨
        (∀ j ∈ items, ¬ Asks j) ∧ store.IsOf find r := by
  obtain ⟨es, hes, hgroup, hcompiles⟩ := exists_entries_or h
  rw [keeps_any_iff hids hgroup, and_iff_right hcompiles, anyHasClause_of_nestedEntries hes,
    exists_isMet_of_nestedEntries hes]
  constructor
  · rintro ⟨hof, hsome⟩
    -- Alternatives that ask nothing are left out; when all are, no condition is left.
    by_cases hasks : ∃ j ∈ items, Asks j
    · obtain ⟨j, hj, fs, hfs, hclause, hmet⟩ := hsome hasks
      exact Or.inl ⟨j, hj, ⟨fs, hfs, hclause⟩,
        (keeps_iff hids hfs).mpr ⟨(compiles_iff hfs).mp (h j hj), hof, hmet⟩⟩
    · exact Or.inr ⟨fun j hj hj' => hasks ⟨j, hj, hj'⟩, hof⟩
  · rintro (⟨j, hj, ⟨fs, hfs, hclause⟩, hkeeps⟩ | ⟨hnone, hof⟩)
    · obtain ⟨-, hof, hmet⟩ := (keeps_iff hids hfs).mp hkeeps
      exact ⟨hof, fun _ => ⟨j, hj, fs, hfs, hclause, hmet⟩⟩
    · exact ⟨hof, fun ⟨j, hj, hj'⟩ => absurd hj' (hnone j hj)⟩

/-! ### Accepted statements -/

/-- The joins that an equality can need. -/
def equalityJoins (name : String) : List (List Join) :=
  [[], [parentJoin], [parentJoin, parentTagJoin (.parentTag 0)],
    [fieldJoin (.fieldValue Filter.defaultStem 0) name]]

/-- An equality compares one column with one value. -/
theorem filter_of_becomes_equalTo {v : Operand} {f : Filter} {k : Nat}
    (h : (Clause.equalTo field v).Becomes Filter.defaultStem false 0 f k) :
    ∃ a c d name, ∃ js ∈ equalityJoins name,
      f = .of (.compare (.column a c) .equal (.bound d)) js := by
  cases h with
  | column c hroute => exact ⟨_, _, _, "", _, List.mem_cons_self, rfl⟩
  | parentName hroute _ => exact ⟨_, _, _, "", _, by simp [equalityJoins], rfl⟩
  | parentTagPresence hroute hop => exact absurd (show false = true from hop) Bool.false_ne_true
  | parentTag hroute _ _ => exact ⟨_, _, _, "", _, by simp [equalityJoins], rfl⟩
  | fieldPresence name hroute hop => exact absurd (show false = true from hop) Bool.false_ne_true
  | field name holds hroute _ hholds =>
    obtain rfl : valueCondition (.column (.fieldValue Filter.defaultStem 0) .fieldValue) true v
        (.compare .equal) = holds := Except.ok.inj hholds
    exact ⟨_, _, _, name, _, by simp [equalityJoins], rfl⟩

/-- An equality is compiled to a small statement, whatever the field and the value. -/
theorem isAccepted_equalTo {v : Operand} {s : PageStatement}
    (h : (request find [.clause (.equalTo field v)]).statement = .ok s) :
    (Statement.page s).IsAccepted := by
  obtain ⟨selection, hselection, rfl⟩ := statement_request_eq_ok_iff.mp h
  obtain ⟨f, hf, rfl⟩ := Selection.of_eq_ok_iff.mp hselection
  obtain ⟨fs, k, hfs, rfl⟩ := Filter.yields_of_ofEntries hf
  obtain ⟨g, gs, i, hg, hgs, rfl⟩ := Entry.yields_cons hfs
  obtain ⟨rfl, -⟩ := Entry.yields_nil hgs
  obtain ⟨f, hbecomes, hgf⟩ := Entry.yields_clause hg
  obtain rfl : g = f := hgf
  obtain ⟨a, c, d, name, js, hjs, rfl⟩ := filter_of_becomes_equalTo hbecomes
  simp only [equalityJoins, List.mem_cons, List.not_mem_nil, or_false] at hjs
  -- With or without a tag for the target, no measure of the statement depends on the texts in it.
  rcases targetJoins_cases find with htarget | htarget <;> rcases hjs with rfl | rfl | rfl | rfl <;>
    rw [htarget] <;>
    exact ⟨⟨Nat.le_of_ble_eq_true rfl, Nat.le_of_ble_eq_true rfl, Nat.le_of_ble_eq_true rfl,
      Nat.le_of_ble_eq_true rfl⟩, rfl⟩

theorem isAccepted_equal (find field : String) (hscalar : (scalar? j).isSome = true) :
    IsAccepted find (.object [(field, .object [("eq", j)])]) := by
  intro es s hes hs
  obtain ⟨v, hv⟩ := Option.isSome_iff_exists.mp hscalar
  cases hkey : connectiveOf? field with
  | some kind =>
    obtain ⟨_, _, harray, -⟩ := (entries_connective hkey).mp hes
    exact absurd harray (by rintro ⟨⟩)
  | none =>
    obtain rfl := Except.ok.inj ((entries_equal hkey hv).symm.trans hes)
    exact isAccepted_equalTo hs

/-- **What a list of alternatives selects.** Conditions select a node if their statement is accepted
and keeps the node. A list of values for a field selects a node exactly if its statement is accepted
and one of the values, given as what the field equals, selects the node. Conditions under `or` can
be compiled if each of them can; the list selects a node exactly if it is accepted and one that
holds a condition keeps the node, and so selects it by itself where these are accepted too. Without
a value, or with no condition in any item, nothing is asked for. -/
theorem selects_alternatives (hids : store.UniqueIds) (find : String) (r : NodeRow) :
    (∀ j, Selects store find r j ↔ IsAccepted find j ∧ Keeps store find r j) ∧
    (∀ (field : String) (items : List Json), (∀ j ∈ items, (scalar? j).isSome = true) →
      (Selects store find r (.object [(field, .array items)]) ↔
        IsAccepted find (.object [(field, .array items)]) ∧
          ((∃ j ∈ items, Selects store find r (.object [(field, .object [("eq", j)])])) ∨
            items = [] ∧ store.IsOf find r))) ∧
    ∀ items : List Json, (∀ j ∈ items, Compiles j) →
      Compiles (.object [("or", .array items)]) ∧
      (Selects store find r (.object [("or", .array items)]) ↔
        IsAccepted find (.object [("or", .array items)]) ∧
          ((∃ j ∈ items, Asks j ∧ Keeps store find r j) ∨
            (∀ j ∈ items, ¬ Asks j) ∧ store.IsOf find r)) ∧
      ((∀ j ∈ items, Asks j → IsAccepted find j) →
        (Selects store find r (.object [("or", .array items)]) ↔
          IsAccepted find (.object [("or", .array items)]) ∧
            ((∃ j ∈ items, Asks j ∧ Selects store find r j) ∨
              (∀ j ∈ items, ¬ Asks j) ∧ store.IsOf find r))) := by
  refine ⟨fun j => selects_iff, fun field items hscalar => ?_, fun items hcompiles => ?_⟩
  · have heach : (∃ j ∈ items, Selects store find r (.object [(field, .object [("eq", j)])])) ↔
        ∃ j ∈ items, Keeps store find r (.object [(field, .object [("eq", j)])]) := by
      refine exists_congr fun j => and_congr_right fun hj => ?_
      rw [selects_iff, and_iff_right (isAccepted_equal find field (hscalar j hj))]
    rw [selects_iff, keeps_values_iff hids hscalar, heach]
  · refine ⟨compiles_or hcompiles, ?_, fun haccepted => ?_⟩
    · rw [selects_iff, keeps_or_iff hids hcompiles]
    · have heach : (∃ j ∈ items, Asks j ∧ Selects store find r j) ↔
          ∃ j ∈ items, Asks j ∧ Keeps store find r j := by
        refine exists_congr fun j => and_congr_right fun hj => and_congr_right fun hasks => ?_
        rw [selects_iff, and_iff_right (haccepted j hj hasks)]
      rw [selects_iff, keeps_or_iff hids hcompiles, heach]

/-- The empty object, and the condition on the name of a plan. -/
def sampleAlternatives : List Json := [.object [], .object [("name", .text "Plan")]]

/-- The draft of the sample is open or done, and its plan is found beside an item that asks for
nothing. -/
theorem selects_alternatives_sample : ∃ draft ∈ sampleStore.nodes, ∃ plan ∈ sampleStore.nodes,
    sampleStore.UniqueIds ∧
    Selects sampleStore "*" draft (.object [("status", .array [.text "done", .text "open"])]) ∧
    (∀ j ∈ sampleAlternatives, Compiles j) ∧
    (∀ j ∈ sampleAlternatives, Asks j → IsAccepted "*" j) ∧
    Selects sampleStore "*" plan (.object [("or", .array sampleAlternatives)]) := by
  have hids := keyed_sampleStore.uniqueIds
  have hcompiles : ∀ j ∈ sampleAlternatives, Compiles j :=
    List.forall_mem_cons.mpr ⟨⟨_, _, rfl, rfl⟩, List.forall_mem_singleton.mpr ⟨_, _, rfl, rfl⟩⟩
  have haccepted : ∀ j ∈ sampleAlternatives, Asks j → IsAccepted "*" j :=
    List.forall_mem_cons.mpr ⟨fun _ => isAccepted_of_statement rfl rfl (by decide),
      List.forall_mem_singleton.mpr fun _ => isAccepted_of_statement rfl rfl (by decide)⟩
  refine ⟨_, List.mem_cons_self, _, List.mem_cons_of_mem _ List.mem_cons_self, hids, ?_, hcompiles,
    haccepted, ?_⟩
  · exact ((selects_alternatives hids _ _).2.1 _ _ (by decide)).mpr
      ⟨isAccepted_of_statement rfl rfl (by decide),
        Or.inl ⟨.text "open", by simp, _, _, rfl, rfl, by decide, by decide +kernel⟩⟩
  · exact (((selects_alternatives hids _ _).2.2 _ hcompiles).2.2 haccepted).mpr
      ⟨isAccepted_of_statement rfl rfl (by decide),
        Or.inl ⟨.object [("name", .text "Plan")], by simp [sampleAlternatives], ⟨_, rfl, rfl⟩,
          _, _, rfl, rfl, by decide, by decide +kernel⟩⟩

/-- What is done, and an item that asks for nothing. -/
def anyOrDone : List Json := [.object [], .object [("Status", .text "Done")]]

/-- An open node is selected by a list without values, though no value of the list selects it; and
it is not selected by a list of conditions of which one by itself selects every node. -/
theorem not_selects_alternatives_empty : ∃ r ∈ openStore.nodes, openStore.UniqueIds ∧
    Selects openStore "*" r (.object [("Status", .array [])]) ∧
    (¬ ∃ j ∈ ([] : List Json),
      Selects openStore "*" r (.object [("Status", .object [("eq", j)])])) ∧
    (∀ j ∈ anyOrDone, Compiles j) ∧ (∃ j ∈ anyOrDone, Selects openStore "*" r j) ∧
    ¬ Selects openStore "*" r (.object [("or", .array anyOrDone)]) := by
  have hkeyed : openStore.Keyed := ⟨by decide, by decide⟩
  refine ⟨_, List.mem_cons_self, hkeyed.uniqueIds, ⟨_, _, rfl, rfl, by decide, by decide +kernel⟩,
    fun ⟨j, hj, _⟩ => absurd hj List.not_mem_nil, ?_,
    ⟨.object [], List.mem_cons_self, _, _, rfl, rfl, by decide, by decide +kernel⟩, ?_⟩
  · exact List.forall_mem_cons.mpr
      ⟨⟨_, _, rfl, rfl⟩, List.forall_mem_singleton.mpr ⟨_, _, rfl, rfl⟩⟩
  · rintro ⟨_, _, hes, hs, -, hr⟩
    obtain rfl := Except.ok.inj hes
    obtain rfl := Except.ok.inj hs
    exact absurd hr (by decide +kernel)

end Shorthand

end GraphIndex
