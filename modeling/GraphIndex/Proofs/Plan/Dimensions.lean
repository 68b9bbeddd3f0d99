import GraphIndex.Plan.Groups
import GraphIndex.Proofs.Plan.Selections

/-!
# The joins of dimensions

`Dimension.Becomes` lists the keys that a dimension can turn into. `JoinSet.Arranged place s` says
that a join set holds what a target, conditions and the dimensions before a place bring in, one join
of each key and each declared before it is read. The joins of the next dimension keep this
(`Arranged.insertKey`), and so do those of all dimensions of an aggregation (`Arranged.insertKeys`).
-/

namespace GraphIndex

/-! ### Keys of dimensions -/

namespace Dimension

/-- What the dimension in a place can turn into. -/
inductive Becomes (place : Nat) : Dimension → GroupKey → Prop
  | period (p : Period) (c : DateColumn) : Becomes place (.period p c) (.of (p.expr c) [])
  | column {name : String} (c : NodeColumn) (hroute : Route.ofField name = .ok (.column c)) :
      Becomes place (.field name) (.of (.cast (nodeColumn c) .text) [])
  | parentName {name : String} (hroute : Route.ofField name = .ok .parentName) :
      Becomes place (.field name) (.of (.column .parent (.node .name)) [parentJoin])
  | parentTags {name : String} (hroute : Route.ofField name = .ok .parentTags) :
      Becomes place (.field name) (.of (.column (.dimension place) .tagName)
        [parentJoin, parentTagJoin (.dimension place)])
  | custom {name : String} (field : String) (hroute : Route.ofField name = .ok (.custom field)) :
      Becomes place (.field name) (.of (.column (.dimension place) .fieldValue)
        [fieldJoin (.dimension place) field])

theorem becomes_of_key {place : Nat} {d : Dimension} {key : GroupKey}
    (h : d.key place = .ok key) : d.Becomes place key := by
  cases d with
  | period p c =>
    obtain rfl := Except.ok.inj h
    exact .period p c
  | field name =>
    simp only [Dimension.key] at h
    cases hroute : Route.ofField name with
    | error fault =>
      rw [hroute] at h
      exact absurd h (by rintro ⟨⟩)
    | ok route =>
      rw [hroute] at h
      cases route with
      | column c =>
        obtain rfl := Except.ok.inj h
        exact .column c hroute
      | parentName =>
        obtain rfl := Except.ok.inj h
        exact .parentName hroute
      | parentTags =>
        obtain rfl := Except.ok.inj h
        exact .parentTags hroute
      | custom field =>
        obtain rfl := Except.ok.inj h
        exact .custom field hroute

/-- What the dimensions from a place on can turn into. -/
inductive BecomeAll : Nat → List Dimension → List GroupKey → Prop
  | nil {place : Nat} : BecomeAll place [] []
  | cons {place : Nat} {d : Dimension} {ds : List Dimension} {key : GroupKey}
      {keys : List GroupKey} (h : d.Becomes place key) (hs : BecomeAll (place + 1) ds keys) :
      BecomeAll place (d :: ds) (key :: keys)

theorem BecomeAll.exists_of_mem {place : Nat} {ds : List Dimension} {keys : List GroupKey}
    (h : BecomeAll place ds keys) :
    ∀ key ∈ keys, ∃ place d, Dimension.Becomes place d key := by
  induction h with
  | nil => exact fun key hkey => absurd hkey List.not_mem_nil
  | cons hkey _ ih => exact List.forall_mem_cons.mpr ⟨⟨_, _, hkey⟩, ih⟩

theorem becomeAll_of_keys {place : Nat} {ds : List Dimension} {keys : List GroupKey}
    (h : Dimension.keys place ds = .ok keys) : BecomeAll place ds keys := by
  induction ds generalizing place keys with
  | nil =>
    obtain rfl := Except.ok.inj h
    exact .nil
  | cons d ds ih =>
    simp only [Dimension.keys, bind_eq_ok_iff] at h
    obtain ⟨key, hkey, rest, hrest, hpure⟩ := h
    obtain rfl := Except.ok.inj hpure
    exact .cons (becomes_of_key hkey) (ih hrest)

end Dimension

/-- The statement of an aggregation adds the joins of its dimensions to a selection. -/
theorem Aggregation.exists_of_statement {a : Aggregation} {s : GroupStatement}
    (h : a.statement = .ok s) : ∃ selection keys,
      Selection.of a.find a.conditions = .ok selection ∧
      Dimension.BecomeAll 0 a.dimensions keys ∧
      s = ⟨⟨selection.joins.insertAll (keys.flatMap GroupKey.joins), selection.conditions⟩,
        keys.map GroupKey.expr, successor a.cap⟩ := by
  simp only [Aggregation.statement, bind_eq_ok_iff] at h
  obtain ⟨selection, hselection, keys, hkeys, hpure⟩ := h
  exact ⟨selection, keys, hselection, Dimension.becomeAll_of_keys hkeys,
    (Except.ok.inj hpure).symm⟩

/-! ### Joins of statements -/

/-- The joins that a target, conditions and the dimensions before a place bring in. -/
inductive StatementJoin (place : Nat) : Join → Prop
  | target (tag : String) : StatementJoin place (tagJoin tag)
  | filter {hi : Nat} {j : Join} (h : FilterJoin Filter.defaultStem 0 hi j) : StatementJoin place j
  | parentTags {k : Nat} (hk : k < place) : StatementJoin place (parentTagJoin (.dimension k))
  | field {k : Nat} (hk : k < place) (name : String) :
      StatementJoin place (fieldJoin (.dimension k) name)

namespace StatementJoin

variable {place : Nat} {j : Join}

theorem parent (place : Nat) : StatementJoin place parentJoin := by
  have hparent : FilterJoin Filter.defaultStem 0 0 parentJoin := .parent
  exact .filter hparent

theorem mono {place' : Nat} (h : StatementJoin place j) (hle : place ≤ place') :
    StatementJoin place' j := by
  cases h with
  | target tag => exact .target tag
  | filter h => exact .filter h
  | parentTags hk => exact .parentTags (lt_of_lt_of_le hk hle)
  | field hk name => exact .field (lt_of_lt_of_le hk hle) name

/-- The key of the next dimension is new. -/
theorem key?_ne (h : StatementJoin place j) : j.key? ≠ (Alias.dimension place).joinKey? := by
  intro hkey
  -- Dimensions before this one have smaller numbers; targets and filters have keys of other kinds.
  have hplace : ∀ k < place, (Alias.dimension k).joinKey? ≠ (Alias.dimension place).joinKey? := by
    intro k hk heq
    have hnumber : k = place := text_number_inj (JoinKey.groupField.inj (Option.some.inj heq))
    omega
  cases h with
  | target tag => exact absurd (Option.some.inj hkey) (by simp)
  | filter h =>
    cases h with
    | parent => exact absurd (Option.some.inj hkey) (by simp)
    | parentTag k _ _ => exact absurd (Option.some.inj hkey) (by simp)
    | field k name _ _ => exact absurd (Option.some.inj hkey) (by simp)
  | parentTags hk => exact hplace _ hk hkey
  | field hk name => exact hplace _ hk hkey

theorem eq_parentJoin (h : StatementJoin place j) (hkey : j.key? = parentJoin.key?) :
    j = parentJoin := by
  cases h with
  | target tag => exact absurd (Option.some.inj hkey) (by simp)
  | filter h =>
    cases h with
    | parent => rfl
    | parentTag k _ _ => exact absurd (Option.some.inj hkey) (by simp)
    | field k name _ _ => exact absurd (Option.some.inj hkey) (by simp)
  | parentTags hk => exact absurd (Option.some.inj hkey) (by simp)
  | field hk name => exact absurd (Option.some.inj hkey) (by simp)

end StatementJoin

namespace Dimension

variable {place : Nat} {d : Dimension} {key : GroupKey}

/-- A dimension brings in the join of the parent and at most one join of its own. -/
theorem Becomes.mem_joins (h : d.Becomes place key) : ∀ j ∈ key.joins, j = parentJoin ∨
    j.key? = (Alias.dimension place).joinKey? ∧ ∀ j' ∈ key.joins, j.key? = j'.key? → j = j' := by
  cases h with
  | period p c => exact fun j hj => absurd hj List.not_mem_nil
  | column c hroute => exact fun j hj => absurd hj List.not_mem_nil
  | parentName hroute => exact fun j hj => Or.inl (List.mem_singleton.mp hj)
  | parentTags hroute =>
    intro j hj
    rcases List.mem_pair.mp hj with rfl | rfl
    · exact Or.inl rfl
    · refine Or.inr ⟨rfl, fun j' hj' hkey => ?_⟩
      rcases List.mem_pair.mp hj' with rfl | rfl
      · exact absurd (Option.some.inj hkey) (by simp)
      · rfl
  | custom field hroute =>
    intro j hj
    rw [List.mem_singleton.mp hj]
    exact Or.inr ⟨rfl, fun j' hj' _ => (List.mem_singleton.mp hj').symm⟩

theorem Becomes.statementJoin (h : d.Becomes place key) :
    ∀ j ∈ key.joins, StatementJoin (place + 1) j := by
  cases h with
  | period p c => exact fun j hj => absurd hj List.not_mem_nil
  | column c hroute => exact fun j hj => absurd hj List.not_mem_nil
  | parentName hroute =>
    intro j hj
    rw [List.mem_singleton.mp hj]
    exact .parent _
  | parentTags hroute =>
    intro j hj
    rcases List.mem_pair.mp hj with rfl | rfl
    · exact .parent _
    · exact .parentTags (Nat.lt_succ_self place)
  | custom field hroute =>
    intro j hj
    rw [List.mem_singleton.mp hj]
    exact .field (Nat.lt_succ_self place) field

theorem Becomes.wellScoped (h : d.Becomes place key) : WellScoped [.node] key.joins := by
  cases h with
  | period p c => trivial
  | column c hroute => trivial
  | parentName hroute => exact ⟨by decide, by decide, trivial⟩
  | parentTags hroute =>
    refine ⟨by decide, by decide, ?_, ?_, trivial⟩
    · simp [parentTagJoin, parentJoin]
    · rw [Join.names_parentTagJoin (by simp)]
      simp [parentJoin]
  | custom field hroute =>
    refine ⟨by simp [fieldJoin], ?_, trivial⟩
    rw [Join.names_fieldJoin (by simp)]
    exact List.Subset.refl _

end Dimension

/-! ### Join sets of statements -/

namespace JoinSet

variable {place : Nat} {s : JoinSet}

/-- The joins of a statement with the dimensions before a place: one of each key, each declared
before it is read. -/
structure Arranged (place : Nat) (s : JoinSet) : Prop where
  joins : ∀ j ∈ s.joins, StatementJoin place j
  distinct : s.Distinct
  ordered : WellScoped [.node] s.joins

/-- A selection has the joins of a statement without dimensions. -/
theorem arranged_of_selection {find : String} {es : List Entry} {selection : Selection}
    (h : Selection.of find es = .ok selection) : selection.joins.Arranged 0 := by
  obtain ⟨f, hf, -, hordered, hmem⟩ := Selection.joins_of h
  obtain ⟨hi, hdrawn⟩ := Filter.drawn_of_ofEntries hf
  refine ⟨fun j hj => ?_, ?_, hordered⟩
  · rcases (hmem j).mp hj with hj | hj
    · rw [eq_tagJoin_of_mem hj]
      exact .target find
    · exact .filter (hdrawn.joins j hj)
  · obtain ⟨g, -, rfl⟩ := Selection.of_eq_ok_iff.mp h
    refine distinct_insertAll ?_ _
    unfold Distinct
    rw [joins_targetJoins]
    split
    · exact List.nodup_nil
    · exact List.nodup_singleton _

theorem Arranged.separate (hs : s.Arranged place) {d : Dimension} {key : GroupKey}
    (h : d.Becomes place key) : Separate s key.joins := by
  intro j hj j' hj' hkey
  rcases h.mem_joins j hj with rfl | ⟨hown, hsame⟩
  · have hj'' : StatementJoin (place + 1) j' := (List.mem_append.mp hj').elim
      (fun hj' => (hs.joins j' hj').mono (Nat.le_succ _)) (h.statementJoin j')
    exact (hj''.eq_parentJoin hkey.symm).symm
  · rcases List.mem_append.mp hj' with hj' | hj'
    · exact absurd (hkey.symm.trans hown) (hs.joins j' hj').key?_ne
    · exact hsame j' hj' hkey

/-- **One more dimension** keeps the joins of a statement arranged. -/
theorem Arranged.insertKey (hs : s.Arranged place) {d : Dimension} {key : GroupKey}
    (h : d.Becomes place key) : (s.insertAll key.joins).Arranged (place + 1) where
  joins := by
    intro j hj
    rcases (mem_insertAll_iff (hs.separate h) j).mp hj with hj | hj
    · exact (hs.joins j hj).mono (Nat.le_succ _)
    · exact h.statementJoin j hj
  distinct := distinct_insertAll hs.distinct _
  ordered := wellScoped_insertAll hs.ordered h.wellScoped
    (fun _ ha => List.mem_append_right _ ha) (fun _ ha => ha) (hs.separate h)

/-- All dimensions keep the joins of a statement arranged, and none of their joins is lost. -/
theorem Arranged.insertKeys {ds : List Dimension} {keys : List GroupKey}
    (h : Dimension.BecomeAll place ds keys) : ∀ {s : JoinSet}, s.Arranged place →
      (s.insertAll (keys.flatMap GroupKey.joins)).Arranged (place + ds.length) ∧
      ∀ j, j ∈ (s.insertAll (keys.flatMap GroupKey.joins)).joins ↔
        j ∈ s.joins ∨ ∃ key ∈ keys, j ∈ key.joins := by
  induction h with
  | nil =>
    intro s hs
    refine ⟨hs, fun j => ⟨Or.inl, ?_⟩⟩
    rintro (hj | ⟨key, hkey, -⟩)
    · exact hj
    · exact absurd hkey List.not_mem_nil
  | @cons place d ds key keys hkey _ ih =>
    intro s hs
    obtain ⟨harranged, hmem⟩ := ih (hs.insertKey hkey)
    rw [List.flatMap_cons, insertAll_append]
    refine ⟨?_, fun j => ?_⟩
    · rw [List.length_cons, Nat.add_comm ds.length 1, ← Nat.add_assoc]
      exact harranged
    · rw [hmem, mem_insertAll_iff (hs.separate hkey), or_assoc, List.exists_mem_cons_iff]

/-- The joins of the statement of an aggregation. -/
theorem arranged_of_statement {a : Aggregation} {t : GroupStatement} (h : a.statement = .ok t) :
    t.selection.joins.Arranged a.dimensions.length := by
  obtain ⟨selection, keys, hselection, hkeys, rfl⟩ := Aggregation.exists_of_statement h
  have harranged := (Arranged.insertKeys hkeys (arranged_of_selection hselection)).1
  rw [Nat.zero_add] at harranged
  exact harranged

end JoinSet

end GraphIndex
