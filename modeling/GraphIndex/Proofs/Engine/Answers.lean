import GraphIndex.Engine.Page
import GraphIndex.Proofs.Engine.FieldValues
import GraphIndex.Proofs.Plan.Matching
import GraphIndex.Proofs.Statement.Pages

/-!
# Answers to a request

A request for a page whose statement is accepted, and which selects few fields, is answered in a
well-typed store, and the answer shows the rows of the page (`Query.exists_run`). Dates that are
settled stay as they are (`Query.isResolved_of_resolve`).
-/

namespace GraphIndex

/-! ### Nodes of rows -/

theorem Datum.IsInstant.exists_instant? {d : Datum} (h : d.IsInstant) :
    ∃ t, d.instant? = .ok t := by
  cases d with
  | null => exact ⟨none, rfl⟩
  | integer i => exact ⟨some i, rfl⟩
  | real x => exact absurd h id
  | text s => exact absurd h id

namespace Node

/-- A node without the values of its fields. -/
def withoutFields (n : Node) : Node := { n with fields := none }

theorem id_and_fields_of_ofRow {r : NodeRow} {n : Node} (h : Node.ofRow r = .ok n) :
    r.id = some n.id ∧ n.fields = none := by
  unfold Node.ofRow at h
  cases hid : r.id with
  | none =>
    rw [hid] at h
    exact absurd h (by rintro ⟨⟩)
  | some id =>
    simp only [hid, bind_eq_ok_iff] at h
    obtain ⟨created, -, updated, -, doneAt, -, hpure⟩ := h
    obtain rfl := Except.ok.inj hpure
    exact ⟨rfl, rfl⟩

theorem withoutFields_of_ofRow {r : NodeRow} {n : Node} (h : Node.ofRow r = .ok n) :
    n.withoutFields = n := by
  rw [withoutFields, ← (id_and_fields_of_ofRow h).2]

/-- The rows of a well-typed store can be read. -/
theorem exists_ofRow {store : Store} {r : NodeRow} (h : store.WellTyped) (hr : r ∈ store.nodes) :
    ∃ n, Node.ofRow r = .ok n := by
  obtain ⟨id, hid⟩ := Option.isSome_iff_exists.mp (h.keyed.isSome r hr)
  obtain ⟨created, hcreated⟩ := (h.dates r hr .created rfl).exists_instant?
  obtain ⟨updated, hupdated⟩ := (h.dates r hr .updated rfl).exists_instant?
  obtain ⟨doneAt, hdoneAt⟩ := (h.dates r hr .doneAt rfl).exists_instant?
  unfold Node.ofRow
  simp only [hid, bind_eq_ok_iff]
  exact ⟨_, created, hcreated, updated, hupdated, doneAt, hdoneAt, rfl⟩

theorem ofRows_cons_eq_ok_iff {r : NodeRow} {rows : List NodeRow} {ns : List Node} :
    Node.ofRows (r :: rows) = .ok ns ↔
      ∃ n ms, Node.ofRow r = .ok n ∧ Node.ofRows rows = .ok ms ∧ ns = n :: ms := by
  rw [Node.ofRows]
  simp only [bind_eq_ok_iff]
  constructor
  · rintro ⟨n, hn, ms, hms, hpure⟩
    exact ⟨n, ms, hn, hms, (Except.ok.inj hpure).symm⟩
  · rintro ⟨n, ms, hn, hms, rfl⟩
    exact ⟨n, hn, ms, hms, rfl⟩

theorem exists_ofRows {store : Store} {rows : List NodeRow} (h : store.WellTyped)
    (hrows : ∀ r ∈ rows, r ∈ store.nodes) : ∃ ns, Node.ofRows rows = .ok ns := by
  induction rows with
  | nil => exact ⟨[], rfl⟩
  | cons r rows ih =>
    rw [List.forall_mem_cons] at hrows
    obtain ⟨n, hn⟩ := exists_ofRow h hrows.1
    obtain ⟨ns, hns⟩ := ih hrows.2
    exact ⟨n :: ns, ofRows_cons_eq_ok_iff.mpr ⟨n, ns, hn, hns, rfl⟩⟩

/-- Rows are read one by one. -/
theorem ofRows_eq_ok_iff {rows : List NodeRow} {ns : List Node} :
    Node.ofRows rows = .ok ns ↔ List.Forall₂ (fun r n => Node.ofRow r = .ok n) rows ns := by
  induction rows generalizing ns with
  | nil => exact ⟨fun h => Except.ok.inj h ▸ .nil, fun h => by cases h; rfl⟩
  | cons r rows ih =>
    rw [ofRows_cons_eq_ok_iff, List.forall₂_cons_left_iff]
    simp only [ih]

theorem length_of_ofRows {rows : List NodeRow} {ns : List Node} (h : Node.ofRows rows = .ok ns) :
    ns.length = rows.length :=
  (ofRows_eq_ok_iff.mp h).length_eq.symm

theorem map_withoutFields_of_ofRows {rows : List NodeRow} {ns : List Node}
    (h : Node.ofRows rows = .ok ns) : ns.map withoutFields = ns := by
  rw [ofRows_eq_ok_iff] at h
  induction h with
  | nil => rfl
  | cons hn _ ih => rw [List.map_cons, ih, withoutFields_of_ofRow hn]

theorem id_of_ofRow {r : NodeRow} {n : Node} (h : Node.ofRow r = .ok n) : r.id = some n.id :=
  (id_and_fields_of_ofRow h).1

theorem map_id_of_ofRows {rows : List NodeRow} {ns : List Node} (h : Node.ofRows rows = .ok ns) :
    rows.map NodeRow.id = ns.map fun n => some n.id := by
  rw [ofRows_eq_ok_iff] at h
  induction h with
  | nil => rfl
  | cons hn _ ih => rw [List.map_cons, List.map_cons, ih, id_of_ofRow hn]

/-- Different rows of a store in which ids are unique have different ids, if they can be read. -/
theorem nodup_ids_of_ofRows {store : Store} (hids : store.UniqueIds) {rows : List NodeRow}
    (hrows : rows ⊆ store.nodes) (hnodup : rows.Nodup) {ns : List Node}
    (h : Node.ofRows rows = .ok ns) : (ns.map (·.id)).Nodup := by
  have hmap := map_id_of_ofRows h
  have hsome : ∀ r ∈ rows, r.id.isSome = true := by
    intro r hr
    have hid : r.id ∈ ns.map fun n => some n.id := hmap ▸ List.mem_map_of_mem hr
    obtain ⟨n, -, hn⟩ := List.mem_map.mp hid
    rw [← hn]
    rfl
  have hdistinct : (rows.map NodeRow.id).Nodup :=
    hnodup.map_on fun r hr r' hr' => hids.eq_of_id_eq (hrows hr) (hrows hr') (hsome r hr)
  rw [hmap] at hdistinct
  refine List.Nodup.of_map some ?_
  rwa [List.map_map]

theorem ofRows_append {rows rows' : List NodeRow} {ns ns' : List Node}
    (h : Node.ofRows rows = .ok ns) (h' : Node.ofRows rows' = .ok ns') :
    Node.ofRows (rows ++ rows') = .ok (ns ++ ns') := by
  rw [ofRows_eq_ok_iff] at *
  exact List.rel_append h h'

end Node

/-! ### Pages -/

/-- A page shows rows: its nodes are those of the rows, and more may exist if there are as many as
were wanted. -/
structure Page.Shows (page : Page) (rows : List NodeRow) (limit : Int64) : Prop where
  nodes : Node.ofRows rows = .ok (page.nodes.map Node.withoutFields)
  hasMore_iff : page.hasMore = true ↔ (rows.length : Int) = limit.toInt

theorem Page.shows_ofNodes {rows : List NodeRow} {ns : List Node} (limit : Int64)
    (h : Node.ofRows rows = .ok ns) : (Page.ofNodes limit ns).Shows rows limit where
  nodes := by
    rw [h]
    exact congrArg Except.ok (Node.map_withoutFields_of_ofRows h).symm
  hasMore_iff := by
    show (((ns.length : Int) == limit.toInt) = true) ↔ _
    rw [beq_iff_eq, Node.length_of_ofRows h]

/-- The values of fields change nothing else. -/
theorem Page.Shows.withFields {page page' : Page} {rows : List NodeRow} {limit : Int64}
    {source : FieldSource} {find : String} {select : List String} (h : page.Shows rows limit)
    (hfields : page.withFields source find select = .ok page') : page'.Shows rows limit := by
  unfold Page.withFields at hfields
  simp only [bind_eq_ok_iff] at hfields
  obtain ⟨names, -, values, -, hpure⟩ := hfields
  obtain rfl := Except.ok.inj hpure
  refine ⟨?_, h.hasMore_iff⟩
  rw [List.map_map]
  exact h.nodes

/-! ### Selected fields -/

/-- The names of the fields that a selection stands for. -/
def Store.selectedFields (store : Store) (find : String) (select : List String) : List String :=
  if selectsAll select then store.fieldsOfTag find else select

/-- A query selects fewer fields than one statement can bind values, if it selects any. -/
def Query.SelectsFew (q : Query) (store : Store) : Prop :=
  ∀ select, q.select = some select →
    (store.selectedFields q.find select).length < bindingLimit

theorem Query.selectsFew_of_none {q : Query} (h : q.select = none) (store : Store) :
    q.SelectsFew store :=
  fun _ hselect => absurd (h.symm.trans hselect) (by rintro ⟨⟩)

section

variable {db : Database} {store : Store}

theorem selectedFields_fieldResolver (hstore : db.store = .ok store) (find : String)
    (select : List String) : selectedFields db.fieldResolver find select
      = .ok (store.selectedFields find select) := by
  unfold selectedFields Store.selectedFields
  split
  · show (db.store >>= fun store => pure (store.fieldsOfTag find)) = _
    rw [hstore]
    rfl
  · rfl

/-- In a database with tables the values of a few fields can be looked up. -/
theorem Page.exists_withFields (hstore : db.store = .ok store) {find : String}
    {select : List String} (hfew : (store.selectedFields find select).length < bindingLimit)
    (page : Page) : ∃ page', page.withFields db.fieldResolver find select = .ok page' := by
  -- Without nodes or without fields nothing is looked up.
  have hvalues : ∀ nodes, ∃ values,
      db.fieldSource.values nodes (store.selectedFields find select) = .ok values := by
    intro nodes
    generalize store.selectedFields find select = names
    show ∃ values, (if nodes.isEmpty || names.isEmpty then pure FieldTable.empty
      else db.store >>= fun store =>
        pure (store.fieldValues (chunkSize names) nodes names)) = .ok values
    split
    · exact ⟨_, rfl⟩
    · rw [hstore]
      exact ⟨_, rfl⟩
  obtain ⟨values, hvalues⟩ := hvalues (page.nodes.map (·.id))
  unfold Page.withFields
  simp only [bind_eq_ok_iff]
  refine ⟨_, _, selectedFields_fieldResolver hstore find select, values, ?_, rfl⟩
  rw [db.values_fieldResolver, if_pos (Or.inr hfew)]
  exact hvalues

end

/-! ### Dates that are settled -/

namespace Clause

variable {c d : Clause} {now : Int}

/-- A test for presence or absence is kept, and so is a value that no date is wanted of. -/
theorem resolve_eq_self (hkept : c.operator.isExistenceTest = true ∨
    isDateField c.field = false ∧ ∀ s, c.value = .text s → Moment.looksLikeDate s = false)
    (now : Int) : c.resolve now = .ok c := by
  unfold resolve
  rcases hkept with htest | ⟨hother, htexts⟩
  · rw [if_pos htest]
  rw [hother, if_neg Bool.false_ne_true]
  cases hvalue : c.value with
  | text s =>
    dsimp only
    rw [htexts s hvalue, if_neg Bool.false_ne_true, ite_self]
  | _ => exact ite_self _

/-- A point in time is settled as it is, on every field. -/
theorem resolve_integer (c : Clause) (ms : Int64) (now : Int) :
    ({ c with value := .integer ms } : Clause).resolve now
      = .ok { c with value := .integer ms } := by
  unfold resolve
  split_ifs <;> rfl

/-- A settled clause is the clause itself, or has a point in time for a value that a date is wanted
of: the value on a date field, or a text on another field that looks like a date. -/
theorem resolve_cases (h : c.resolve now = .ok d) :
    (d = c ∧ (c.operator.isExistenceTest = true ∨
      isDateField c.field = false ∧ ∀ s, c.value = .text s → Moment.looksLikeDate s = false)) ∨
    (c.operator.isExistenceTest = false ∧ ∃ ms, d = { c with value := .integer ms } ∧
      (isDateField c.field = true ∧ Moment.ofOperand now c.value = .ok ms ∨
        isDateField c.field = false ∧ ∃ s, c.value = .text s ∧ Moment.looksLikeDate s = true ∧
          Moment.ofText now s = .ok ms)) := by
  unfold resolve at h
  by_cases htest : c.operator.isExistenceTest = true
  · rw [if_pos htest] at h
    exact .inl ⟨(Except.ok.inj h).symm, .inl htest⟩
  rw [if_neg htest] at h
  rw [Bool.not_eq_true] at htest
  by_cases hdate : isDateField c.field = true
  · rw [if_pos hdate, bind_eq_ok_iff] at h
    obtain ⟨ms, hms, hpure⟩ := h
    exact .inr ⟨htest, ms, (Except.ok.inj hpure).symm, .inl ⟨hdate, hms⟩⟩
  -- On any other field a text becomes a point in time only if it looks like a date.
  rw [if_neg hdate] at h
  rw [Bool.not_eq_true] at hdate
  cases hvalue : c.value with
  | text s =>
    simp only [hvalue] at h
    by_cases hlooks : Moment.looksLikeDate s = true
    · rw [if_pos hlooks, bind_eq_ok_iff] at h
      obtain ⟨ms, hms, hpure⟩ := h
      exact .inr ⟨htest, ms, (Except.ok.inj hpure).symm, .inr ⟨hdate, s, rfl, hlooks, hms⟩⟩
    · rw [if_neg hlooks] at h
      refine .inl ⟨(Except.ok.inj h).symm, .inr ⟨hdate, fun t ht => ?_⟩⟩
      obtain rfl := Operand.text.inj ht
      exact Bool.eq_false_iff.mpr hlooks
  | _ =>
    simp only [hvalue] at h
    exact .inl ⟨(Except.ok.inj h).symm, .inr ⟨hdate, fun t ht => absurd ht (by rintro ⟨⟩)⟩⟩

/-- A settled clause is settled at every other time, and as it is. -/
theorem resolve_of_resolve (h : c.resolve now = .ok d) (now' : Int) : d.resolve now' = .ok d := by
  rcases resolve_cases h with ⟨rfl, hkept⟩ | ⟨-, ms, rfl, -⟩
  · exact resolve_eq_self hkept now'
  · exact resolve_integer c ms now'

end Clause

namespace Entry

theorem mapClausesAll_of_mapClausesAll {ε ε' : Type} {step : Clause → Except ε Clause}
    {step' : Clause → Except ε' Clause} {es : List Entry}
    (hes : ∀ e ∈ es, ∀ e', e.mapClauses step = .ok e' → e'.mapClauses step' = .ok e') :
    ∀ {es'}, mapClausesAll step es = .ok es' → mapClausesAll step' es' = .ok es' := by
  induction es with
  | nil =>
    intro es' h
    obtain rfl := Except.ok.inj h
    rfl
  | cons e es ih =>
    intro es' h
    rw [List.forall_mem_cons] at hes
    rw [mapClausesAll, bind_eq_ok_iff] at h
    obtain ⟨e', he', h⟩ := h
    rw [bind_eq_ok_iff] at h
    obtain ⟨rest, hrest, hpure⟩ := h
    obtain rfl := Except.ok.inj hpure
    rw [mapClausesAll, hes.1 e' he', ih hes.2 hrest]
    rfl

/-- Trees that a step leaves as they are. -/
theorem mapClausesAll_eq_self {ε : Type} {step : Clause → Except ε Clause} {es : List Entry}
    (h : ∀ e ∈ es, e.mapClauses step = .ok e) : mapClausesAll step es = .ok es := by
  induction es with
  | nil => rfl
  | cons e es ih =>
    rw [List.forall_mem_cons] at h
    rw [mapClausesAll, h.1, ih h.2]
    rfl

theorem mapClausesAll_append {ε : Type} {step : Clause → Except ε Clause}
    {es es' fs fs' : List Entry} (h : mapClausesAll step es = .ok fs)
    (h' : mapClausesAll step es' = .ok fs') : mapClausesAll step (es ++ es') = .ok (fs ++ fs') := by
  induction es generalizing fs with
  | nil =>
    obtain rfl := Except.ok.inj h
    exact h'
  | cons e es ih =>
    rw [mapClausesAll, bind_eq_ok_iff] at h
    obtain ⟨f, hf, h⟩ := h
    rw [bind_eq_ok_iff] at h
    obtain ⟨rest, hrest, hpure⟩ := h
    obtain rfl := Except.ok.inj hpure
    rw [List.cons_append, mapClausesAll, hf, ih hrest]
    rfl

/-- Steps that leave the results of other steps as they are do so for a whole tree. -/
theorem mapClauses_of_mapClauses {ε ε' : Type} {step : Clause → Except ε Clause}
    {step' : Clause → Except ε' Clause} (hstep : ∀ c c', step c = .ok c' → step' c' = .ok c')
    (e : Entry) : ∀ e', e.mapClauses step = .ok e' → e'.mapClauses step' = .ok e' := by
  induction e using Entry.induction with
  | clause c =>
    intro e' h
    rw [mapClauses] at h
    cases hc : step c with
    | error fault =>
      rw [hc] at h
      exact absurd h (by rintro ⟨⟩)
    | ok c' =>
      rw [hc] at h
      obtain rfl := Except.ok.inj h
      rw [mapClauses, hstep c c' hc]
      rfl
  | group kind members negated ih =>
    intro e' h
    rw [mapClauses] at h
    cases hmembers : mapClausesAll step members with
    | error fault =>
      rw [hmembers] at h
      exact absurd h (by rintro ⟨⟩)
    | ok members' =>
      rw [hmembers] at h
      obtain rfl := Except.ok.inj h
      rw [mapClauses, mapClausesAll_of_mapClausesAll ih hmembers]
      rfl

end Entry

namespace Query

/-- All dates of a query are settled: at any time they stay as they are. -/
def IsResolved (q : Query) : Prop := ∀ now, q.resolve now = .ok q

theorem resolve_eq_ok_iff {now : Int} {q q' : Query} :
    q.resolve now = .ok q' ↔ ∃ conditions, Entry.resolveAll now q.conditions = .ok conditions
      ∧ q' = { q with conditions := conditions } := by
  rw [Query.resolve, bind_eq_ok_iff]
  refine exists_congr fun conditions => and_congr_right fun _ => ?_
  exact ⟨fun h => (Except.ok.inj h).symm, fun h => congrArg Except.ok h.symm⟩

/-- Once settled, dates stay as they are. -/
theorem isResolved_of_resolve {now : Int} {q q' : Query} (h : q.resolve now = .ok q') :
    q'.IsResolved := by
  intro now'
  obtain ⟨conditions, hconditions, rfl⟩ := resolve_eq_ok_iff.mp h
  refine resolve_eq_ok_iff.mpr ⟨conditions, ?_, rfl⟩
  refine Entry.mapClausesAll_of_mapClausesAll (fun e _ e' he => ?_) hconditions
  exact e.mapClauses_of_mapClauses (fun _ _ hc => Clause.resolve_of_resolve hc now') e' he

theorem IsResolved.resolveAll {q : Query} (h : q.IsResolved) (now : Int) :
    Entry.resolveAll now q.conditions = .ok q.conditions := by
  obtain ⟨conditions, hconditions, heq⟩ := resolve_eq_ok_iff.mp (h now)
  rw [hconditions, congrArg Query.conditions heq]

/-! ### One request -/

variable {db : Database} {store : Store} {q : Query} {s : PageStatement}

theorem check_eq_ok_iff : q.check = .ok () ↔
    checkTarget q.find = .ok () ∧ checkLimit q.limit = .ok () ∧ ¬ q.offset < 0 := by
  unfold Query.check
  simp only [bind_eq_ok_iff]
  constructor
  · rintro ⟨⟨⟩, htarget, ⟨⟩, hlimit, hoffset⟩
    refine ⟨htarget, hlimit, fun h => ?_⟩
    rw [if_pos h] at hoffset
    exact absurd hoffset (by rintro ⟨⟩)
  · rintro ⟨htarget, hlimit, hoffset⟩
    refine ⟨(), htarget, (), hlimit, ?_⟩
    rw [if_neg hoffset]
    rfl

theorem plan_eq_ok_iff {now : Int} :
    q.plan now = .ok s
      ↔ q.check = .ok () ∧ ∃ q', q.resolve now = .ok q' ∧ q'.statement = .ok s := by
  unfold Query.plan
  simp only [bind_eq_ok_iff, mapError_eq_ok_iff]
  constructor
  · rintro ⟨⟨⟩, hcheck, q', hq', hs⟩
    exact ⟨hcheck, q', hq', hs⟩
  · rintro ⟨hcheck, q', hq', hs⟩
    exact ⟨(), hcheck, q', hq', hs⟩

section

variable {statement : Statement} {store' : Store}

theorem isAccepted_of_storeFor (h : db.storeFor statement = .ok store') : statement.IsAccepted := by
  unfold Database.storeFor at h
  obtain ⟨_, -, hreturn⟩ := bind_eq_ok_iff.mp h
  split at hreturn
  · assumption
  · exact absurd hreturn (by rintro ⟨⟩)

/-- A statement works on the store of the database. -/
theorem eq_of_storeFor (hstore : db.store = .ok store) (h : db.storeFor statement = .ok store') :
    store' = store := by
  unfold Database.storeFor at h
  rw [hstore] at h
  obtain ⟨_, hok, hreturn⟩ := bind_eq_ok_iff.mp h
  obtain rfl := Except.ok.inj hok
  split at hreturn
  · exact (Except.ok.inj hreturn).symm
  · exact absurd hreturn (by rintro ⟨⟩)

theorem storeFor_of_isAccepted (hstore : db.store = .ok store) (h : statement.IsAccepted) :
    db.storeFor statement = .ok store := by
  unfold Database.storeFor
  rw [hstore]
  exact if_pos h

theorem storeFor_eq_error (hstore : db.store = .ok store) (h : ¬ statement.IsPrepared) :
    db.storeFor statement = .error .storage := by
  unfold Database.storeFor
  rw [hstore]
  exact if_neg fun haccepted => h haccepted.toIsPrepared

end

/-- **A request is answered** with the page of its statement. -/
theorem exists_run (hstore : db.store = .ok store) (htyped : store.WellTyped) {now : Int}
    (hplan : q.plan now = .ok s) (haccepted : (Statement.page s).IsAccepted)
    (hfew : q.SelectsFew store) :
    ∃ page, q.run db db.fieldResolver now = .ok page ∧ page.Shows (s.page store) q.limit := by
  -- The rows of a page are rows of nodes, and these can all be read.
  have hrows : ∀ r ∈ s.page store, r ∈ store.nodes := fun r hr =>
    PageStatement.mem_store_of_mem_nodes (List.mem_of_mem_drop (List.mem_of_mem_take hr))
  obtain ⟨ns, hns⟩ := Node.exists_ofRows htyped hrows
  have hread : Query.read db s = .ok ns := by
    unfold Query.read
    rw [storeFor_of_isAccepted hstore haccepted]
    exact hns
  have hshows := Page.shows_ofNodes q.limit hns
  unfold Query.run
  simp only [bind_eq_ok_iff]
  cases hselect : q.select with
  | none => exact ⟨_, ⟨s, hplan, ns, hread, rfl⟩, hshows⟩
  | some select =>
    obtain ⟨page, hpage⟩ :=
      Page.exists_withFields hstore (hfew select hselect) (Page.ofNodes q.limit ns)
    exact ⟨page, ⟨s, hplan, ns, hread, hpage⟩, hshows.withFields hpage⟩

end Query

end GraphIndex
