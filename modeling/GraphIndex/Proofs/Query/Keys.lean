import GraphIndex.Plan.Groups
import GraphIndex.Proofs.Query.Meaning
import GraphIndex.Proofs.Statement.Distinct

/-!
# What nodes are grouped by

The keys of a node, read off the store itself: no joins and no repeated rows. Along a period, a
column or the name of the parent a node has one key. Along a custom field or the tags of the parent
it has one for each different value, and the key of nodes without a value if there is no row or one
that holds nothing.

`Dimension.keyLists` combines the keys along several dimensions; each combination occurs once
(`Dimension.nodup_keyLists`), and every node has one (`Dimension.keyLists_ne_nil`).
-/

namespace GraphIndex

/-! ### Periods -/

/-- The day number of a value in milliseconds. -/
def Datum.dayOfMs? (d : Datum) : Option Int := (d.divide (.integer 1000)).toReal?.bind dayOfSeconds?

/-- The text of the period in which a day falls. -/
def Period.label (p : Period) (n : Int) : String :=
  match p with
  | day => dateText [.year, .char '-', .month, .char '-', .day] n
  | week => dateText [.year, .char '-', .char 'W', .week] n
  | month => dateText [.year, .char '-', .month] n
  | year => dateText [.year] n
  | quarter => dateText [.year] n ++ "-Q" ++ toString (((storeDate n).month + 2) / 3)

/-! ### Keys -/

/-- The values of a field that are entered under an id, null where a row holds none. -/
def Store.entriesOf (store : Store) (id : Option String) (field : String) : List (Option String) :=
  (store.fields.filter fun f => id == some f.node && f.field == field).map (·.value)

namespace Dimension

variable (store : Store) (r : NodeRow)

/-- What a node has along a dimension, row by row. -/
def values : Dimension → List (Option String)
  | period p c => [(r.cell c.column).dayOfMs?.map p.label]
  | field name =>
    match Route.ofField name with
    | .error _ => []
    | .ok (.column c) => [(r.cell c).toText?]
    | .ok .parentName => [(store.view r).parentName.toText?]
    | .ok .parentTags => (store.view r).parentTags.map some
    | .ok (.custom name) => store.entriesOf r.id name

/-- The keys of a node along a dimension, each once. -/
def keysOf (d : Dimension) : List String :=
  let values := d.values store r
  distinct ((if values.isEmpty then [none] else values).map (·.getD noneKey))

/-- One key along each dimension, in every combination. -/
def keyLists : List Dimension → List (List String)
  | [] => [[]]
  | d :: ds => (d.keysOf store r).flatMap fun k => (keyLists ds).map (k :: ·)

variable {store r} {name : String}

theorem values_of_column {c : NodeColumn} (h : Route.ofField name = .ok (.column c)) :
    (field name).values store r = [(r.cell c).toText?] := by
  simp only [values, h]

theorem values_of_parentName (h : Route.ofField name = .ok .parentName) :
    (field name).values store r = [(store.view r).parentName.toText?] := by
  simp only [values, h]

theorem values_of_parentTags (h : Route.ofField name = .ok .parentTags) :
    (field name).values store r = (store.view r).parentTags.map some := by
  simp only [values, h]

theorem values_of_custom {f : String} (h : Route.ofField name = .ok (.custom f)) :
    (field name).values store r = store.entriesOf r.id f := by
  simp only [values, h]

theorem mem_keysOf {d : Dimension} {k : String} :
    k ∈ d.keysOf store r ↔ (∃ v ∈ d.values store r, v.getD noneKey = k)
      ∨ d.values store r = [] ∧ k = noneKey := by
  unfold keysOf
  cases d.values store r with
  | nil => simp
  | cons v vs => simp [eq_comm]

theorem keysOf_ne_nil (d : Dimension) : d.keysOf store r ≠ [] := by
  have hmem : ∃ k, k ∈ d.keysOf store r := by
    cases hvalues : d.values store r with
    | nil => exact ⟨noneKey, mem_keysOf.mpr (Or.inr ⟨hvalues, rfl⟩)⟩
    | cons v vs =>
      exact ⟨_, mem_keysOf.mpr (Or.inl ⟨v, by rw [hvalues]; exact List.mem_cons_self, rfl⟩)⟩
  obtain ⟨k, hk⟩ := hmem
  exact List.ne_nil_of_mem hk

theorem nodup_keysOf (d : Dimension) : (d.keysOf store r).Nodup := nodup_distinct _

/-! ### Combinations of keys -/

theorem mem_keyLists_nil {ks : List String} : ks ∈ keyLists store r [] ↔ ks = [] :=
  List.mem_singleton

theorem mem_keyLists_cons {d : Dimension} {ds : List Dimension} {ks : List String} :
    ks ∈ keyLists store r (d :: ds) ↔
      ∃ k ∈ d.keysOf store r, ∃ ks' ∈ keyLists store r ds, ks = k :: ks' := by
  rw [keyLists]
  simp only [List.mem_flatMap, List.mem_map, eq_comm]

theorem length_of_mem_keyLists {ds : List Dimension} {ks : List String}
    (h : ks ∈ keyLists store r ds) : ks.length = ds.length := by
  induction ds generalizing ks with
  | nil => exact congrArg List.length (mem_keyLists_nil.mp h)
  | cons d ds ih =>
    obtain ⟨k, -, ks', hks', rfl⟩ := mem_keyLists_cons.mp h
    rw [List.length_cons, List.length_cons, ih hks']

theorem keyLists_ne_nil (ds : List Dimension) : keyLists store r ds ≠ [] := by
  induction ds with
  | nil => exact List.cons_ne_nil _ _
  | cons d ds ih =>
    obtain ⟨k, hk⟩ := List.exists_mem_of_ne_nil _ (keysOf_ne_nil (r := r) d)
    obtain ⟨ks, hks⟩ := List.exists_mem_of_ne_nil _ ih
    exact List.ne_nil_of_mem (mem_keyLists_cons.mpr ⟨k, hk, ks, hks, rfl⟩)

theorem nodup_keyLists (ds : List Dimension) : (keyLists store r ds).Nodup := by
  induction ds with
  | nil => exact List.nodup_singleton _
  | cons d ds ih =>
    refine List.nodup_flatMap.mpr ⟨fun k _ => ih.map fun ks ks' h => (List.cons.inj h).2, ?_⟩
    refine (nodup_keysOf d).imp fun hne => ?_
    -- Combinations with different first keys are different.
    intro ks hks hks'
    obtain ⟨_, -, rfl⟩ := List.mem_map.mp hks
    obtain ⟨_, -, heq⟩ := List.mem_map.mp hks'
    exact hne (List.cons.inj heq).1.symm

end Dimension

end GraphIndex
