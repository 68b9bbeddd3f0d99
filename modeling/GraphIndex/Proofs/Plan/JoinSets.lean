import GraphIndex.Proofs.Plan.Numbering
import GraphIndex.Proofs.Statement.Joins
import Mathlib

/-!
# The joins of filters

A join set keeps one join of each key in the order of insertion, and a key is found in it if and
only if one of its joins has the key (`JoinSet.contains_iff`). `Filter.Drawn lo hi f` says what the
joins of a filter made with the numbers from `lo` up to `hi` are: the shared join of the parent, and
joins under aliases with one of these numbers, each declared before it is read. Filters with
separate numbers share at most the parent, so no join is lost when they are put together
(`Filter.mem_and_iff`).
-/

namespace GraphIndex

/-! ### Join sets -/

namespace JoinSet

variable {s : JoinSet} {j : Join}

theorem insertAll_cons (s : JoinSet) (j : Join) (js : List Join) :
    s.insertAll (j :: js) = (s.insert j).insertAll js := rfl

theorem insertAll_append (s : JoinSet) (js js' : List Join) :
    s.insertAll (js ++ js') = (s.insertAll js).insertAll js' :=
  List.foldl_append

/-- Joins that are there stay in front. -/
theorem prefix_insert (s : JoinSet) (j : Join) : s.joins <+: (s.insert j).joins := by
  unfold insert
  split
  · exact List.prefix_rfl
  · exact List.prefix_append _ _

theorem prefix_insertAll (s : JoinSet) (js : List Join) : s.joins <+: (s.insertAll js).joins := by
  induction js generalizing s with
  | nil => exact List.prefix_rfl
  | cons j js ih => exact (s.prefix_insert j).trans (ih (s.insert j))

theorem contains_insertAll (s : JoinSet) (js : List Join) : ∀ j ∈ s.joins ++ js,
    (s.insertAll js).contains j.key? = true := by
  induction js generalizing s with
  | nil =>
    intro j hj
    rw [List.append_nil] at hj
    exact (contains_iff _ _).mpr ⟨j, hj, rfl⟩
  | cons j' js ih =>
    -- The key of the join is there after its insertion, whether the join is new or not.
    have hown : ∃ j ∈ (s.insert j').joins, j.key? = j'.key? := by
      by_cases hc : s.contains j'.key? = true
      · rw [insert_of_contains hc]
        exact (contains_iff _ _).mp hc
      · rw [joins_insert_of_not_contains hc]
        exact ⟨j', List.mem_append_right _ (List.mem_singleton_self _), rfl⟩
    have hold : ∀ j ∈ s.joins, j ∈ (s.insert j').joins := (s.prefix_insert j').subset
    intro j hj
    rw [insertAll_cons]
    rcases List.mem_append.mp hj with hj | hj
    · exact ih _ j (List.mem_append_left _ (hold j hj))
    · rcases List.mem_cons.mp hj with rfl | hj
      · obtain ⟨j, hj, hkey⟩ := hown
        rw [← hkey]
        exact ih _ j (List.mem_append_left _ hj)
      · exact ih _ j (List.mem_append_right _ hj)

/-- Adding the joins of a set and then further joins is adding the set with the further joins. -/
theorem insertAll_joins_insertAll (s t : JoinSet) (js : List Join) :
    s.insertAll (t.insertAll js).joins = (s.insertAll t.joins).insertAll js := by
  induction js generalizing t with
  | nil => rfl
  | cons j js ih =>
    rw [insertAll_cons, ih, insertAll_cons]
    by_cases hc : t.contains j.key? = true
    · obtain ⟨j', hj', hkey⟩ := (contains_iff _ _).mp hc
      have hthere : (s.insertAll t.joins).contains j.key? = true := by
        rw [← hkey]
        exact contains_insertAll s t.joins j' (List.mem_append_right _ hj')
      rw [insert_of_contains hc, insert_of_contains hthere]
    · rw [joins_insert_of_not_contains hc, insertAll_append]
      rfl

/-- A join set has one join of each key. -/
def Distinct (s : JoinSet) : Prop := (s.joins.map Join.key?).Nodup

theorem distinct_insert (hs : s.Distinct) (j : Join) : (s.insert j).Distinct := by
  by_cases h : s.contains j.key? = true
  · rw [insert_of_contains h]
    exact hs
  · unfold Distinct
    rw [joins_insert_of_not_contains h, List.map_append, List.map_singleton, List.nodup_append]
    refine ⟨hs, List.nodup_singleton _, ?_⟩
    intro key hkey key' hkey' heq
    obtain ⟨j', hj', rfl⟩ := List.mem_map.mp hkey
    rw [List.mem_singleton] at hkey'
    exact h ((contains_iff s _).mpr ⟨j', hj', heq.trans hkey'⟩)

theorem distinct_insertAll (hs : s.Distinct) (js : List Join) : (s.insertAll js).Distinct := by
  induction js generalizing s with
  | nil => exact hs
  | cons j js ih => exact ih (distinct_insert hs j)

theorem Distinct.eq_of_key_eq {j j' : Join} (hs : s.Distinct) (hj : j ∈ s.joins)
    (hj' : j' ∈ s.joins) (h : j.key? = j'.key?) : j = j' :=
  List.inj_on_of_nodup_map hs hj hj' h

/-- Joins that are told apart by their keys, among each other and from those of a set. -/
def Separate (s : JoinSet) (js : List Join) : Prop :=
  ∀ j ∈ js, ∀ j' ∈ s.joins ++ js, j.key? = j'.key? → j = j'

theorem Separate.insert {js : List Join} (h : Separate s (j :: js)) :
    Separate (s.insert j) js := by
  intro j₁ hj₁ j₂ hj₂ hkey
  refine h j₁ (List.mem_cons_of_mem _ hj₁) j₂ ?_ hkey
  rcases List.mem_append.mp hj₂ with hj₂ | hj₂
  · by_cases hc : s.contains j.key? = true
    · rw [insert_of_contains hc] at hj₂
      exact List.mem_append_left _ hj₂
    · rw [joins_insert_of_not_contains hc] at hj₂
      rcases List.mem_append.mp hj₂ with hj₂ | hj₂
      · exact List.mem_append_left _ hj₂
      · rw [List.mem_singleton.mp hj₂]
        exact List.mem_append_right _ List.mem_cons_self
  · exact List.mem_append_right _ (List.mem_cons_of_mem _ hj₂)

/-- A join that is told apart by its key is in a set after it was inserted. -/
theorem mem_insert_iff {js : List Join} (h : Separate s (j :: js)) (j' : Join) :
    j' ∈ (s.insert j).joins ↔ j' ∈ s.joins ∨ j' = j := by
  by_cases hc : s.contains j.key? = true
  · obtain ⟨j₀, hj₀, hkey⟩ := (contains_iff s _).mp hc
    -- The join that was found under the key is the inserted one.
    have hmem : j ∈ s.joins := by
      rw [h j List.mem_cons_self j₀ (List.mem_append_left _ hj₀) hkey.symm]
      exact hj₀
    rw [insert_of_contains hc]
    exact ⟨Or.inl, fun hj' => hj'.elim id fun heq => heq ▸ hmem⟩
  · rw [joins_insert_of_not_contains hc, List.mem_append, List.mem_singleton]

theorem mem_insertAll_iff {js : List Join} (h : Separate s js) (j' : Join) :
    j' ∈ (s.insertAll js).joins ↔ j' ∈ s.joins ∨ j' ∈ js := by
  induction js generalizing s with
  | nil => exact ⟨Or.inl, fun h => h.resolve_right List.not_mem_nil⟩
  | cons j js ih =>
    rw [insertAll_cons, ih h.insert, mem_insert_iff h, List.mem_cons, or_assoc]

theorem joins_insertAll {js : List Join} (h : ((s.joins ++ js).map Join.key?).Nodup) :
    (s.insertAll js).joins = s.joins ++ js := by
  induction js generalizing s with
  | nil => exact (List.append_nil _).symm
  | cons j js ih =>
    have hnew : ¬ s.contains j.key? = true := by
      intro hc
      obtain ⟨j', hj', hkey⟩ := (contains_iff s _).mp hc
      rw [List.map_append, List.nodup_append] at h
      exact h.2.2 _ (List.mem_map_of_mem hj') _ (List.mem_map_of_mem List.mem_cons_self) hkey
    have hjoins := joins_insert_of_not_contains hnew
    have hnodup : (((s.insert j).joins ++ js).map Join.key?).Nodup := by
      rw [hjoins, List.append_assoc]
      exact h
    rw [insertAll_cons, ih hnodup, hjoins, List.append_assoc, List.singleton_append]

/-- Of joins with different keys those stay, in their order, whose keys are new. -/
theorem joins_insertAll_of_nodup {js : List Join} (h : (js.map Join.key?).Nodup) :
    (s.insertAll js).joins = s.joins ++ js.filter fun j => !s.contains j.key? := by
  induction js generalizing s with
  | nil => exact (List.append_nil _).symm
  | cons j js ih =>
    rw [List.map_cons, List.nodup_cons] at h
    rw [insertAll_cons, ih h.2]
    by_cases hc : s.contains j.key? = true
    · rw [insert_of_contains hc, List.filter_cons_of_neg (by rw [hc]; decide)]
    · -- The new key is that of none of the joins that follow.
      have hrest : js.filter (fun j' => !(s.insert j).contains j'.key?)
          = js.filter fun j' => !s.contains j'.key? := by
        refine List.filter_congr fun j' hj' => ?_
        have hne : j.key? ≠ j'.key? := fun heq => h.1 (heq ▸ List.mem_map_of_mem hj')
        have hiff : (s.insert j).contains j'.key? = true ↔ s.contains j'.key? = true := by
          rw [contains_iff, contains_iff, joins_insert_of_not_contains hc]
          simp only [List.mem_append, List.mem_singleton, or_and_right, exists_or,
            exists_eq_left, hne, or_false]
        rw [Bool.eq_iff_iff.mpr hiff]
      rw [hrest, joins_insert_of_not_contains hc, List.append_assoc, List.singleton_append,
        List.filter_cons_of_pos (by rw [Bool.eq_false_of_not_eq_true hc]; rfl)]

/-- Joins of different keys all stay in their order. -/
theorem joins_ofList {js : List Join} (h : (js.map Join.key?).Nodup) : (ofList js).joins = js :=
  joins_insertAll h

/-! ### Scoping of join sets -/

theorem wellScoped_append_singleton {declared : List Alias} {js : List Join}
    (hjs : WellScoped declared js) (hnew : j.source.name ∉ joinNames js ++ declared)
    (hnames : j.names ⊆ joinNames js ++ declared) : WellScoped declared (js ++ [j]) := by
  induction js generalizing declared with
  | nil => exact ⟨hnew, hnames, trivial⟩
  | cons j' js ih =>
    obtain ⟨hj', hnames', hrest⟩ := hjs
    have hperm : ∀ a, a ∈ joinNames js ++ j'.source.name :: declared ↔
        a ∈ joinNames (j' :: js) ++ declared := by
      intro a
      simp only [joinNames, List.map_cons, List.cons_append, List.mem_append, List.mem_cons]
      tauto
    exact ⟨hj', hnames', ih hrest (fun h => hnew ((hperm _).mp h))
      fun a ha => (hperm a).mpr (hnames ha)⟩

/-- A well scoped set stays so when well scoped joins are inserted in order. -/
theorem wellScoped_insertAll {declared inner : List Alias} {js : List Join}
    (hs : WellScoped declared s.joins) (hjs : WellScoped inner js)
    (hinner : inner ⊆ joinNames s.joins ++ declared) (hdeclared : declared ⊆ inner)
    (hsep : Separate s js) : WellScoped declared (s.insertAll js).joins := by
  induction js generalizing s inner with
  | nil => exact hs
  | cons j js ih =>
    obtain ⟨hnew, hnames, hrest⟩ := hjs
    have hmem : j ∈ (s.insert j).joins := (mem_insert_iff hsep j).mpr (Or.inr rfl)
    have hsub : ∀ a ∈ joinNames s.joins ++ declared,
        a ∈ joinNames (s.insert j).joins ++ declared := by
      intro a ha
      rcases List.mem_append.mp ha with ha | ha
      · obtain ⟨j', hj', rfl⟩ := List.mem_map.mp ha
        exact List.mem_append_left _
          (List.mem_map_of_mem ((mem_insert_iff hsep j').mpr (Or.inl hj')))
      · exact List.mem_append_right _ ha
    rw [insertAll_cons]
    refine ih ?_ hrest ?_ (fun a ha => List.mem_cons_of_mem _ (hdeclared ha)) hsep.insert
    · by_cases hc : s.contains j.key? = true
      · rw [insert_of_contains hc]
        exact hs
      · -- An alias that is there already would have brought its key along.
        rw [joins_insert_of_not_contains hc]
        refine wellScoped_append_singleton hs ?_ fun a ha => hinner (hnames ha)
        intro ha
        rcases List.mem_append.mp ha with ha | ha
        · obtain ⟨j', hj', heq⟩ := List.mem_map.mp ha
          exact hc ((contains_iff s _).mpr ⟨j', hj', congrArg Alias.joinKey? heq⟩)
        · exact hnew (hdeclared ha)
    · intro a ha
      rcases List.mem_cons.mp ha with rfl | ha
      · exact List.mem_append_left _ (List.mem_map_of_mem hmem)
      · exact hsub a (hinner ha)

end JoinSet

/-! ### Joins of conditions -/

namespace Join

theorem names_tagJoin (tag : String) : (tagJoin tag).names = [.node] := by
  simp [names, tagJoin, sameColumns, nodeColumn, Condition.listNames, Condition.names, Expr.names]

theorem names_parentTagJoin {a : Alias} (h : a ≠ .parent) :
    (parentTagJoin a).names = [.parent] := by
  simp [names, parentTagJoin, sameColumns, Condition.listNames, Condition.names, Expr.names, h.symm]

theorem names_fieldJoin {a : Alias} (h : a ≠ .node) (field : String) :
    (fieldJoin a field).names = [.node] := by
  simp [names, fieldJoin, ofField, sameColumns, nodeColumn, Condition.listNames, Condition.names,
    Expr.names, h.symm]

end Join

/-- The joins that conditions bring in with the numbers from `lo` up to `hi`. -/
inductive FilterJoin (stem : String) (lo hi : Nat) : Join → Prop
  | parent : FilterJoin stem lo hi parentJoin
  | parentTag (k : Nat) (hlo : lo ≤ k) (hhi : k < hi) :
      FilterJoin stem lo hi (parentTagJoin (.parentTag k))
  | field (k : Nat) (name : String) (hlo : lo ≤ k) (hhi : k < hi) :
      FilterJoin stem lo hi (fieldJoin (.fieldValue stem k) name)

theorem text_number_inj {stem : String} {k k' : Nat}
    (h : stem ++ toString k = stem ++ toString k') :
    k = k' :=
  Nat.repr_injective ((String.append_right_inj stem).mp h)

namespace FilterJoin

variable {stem : String} {lo mid hi : Nat} {j j' : Join}

theorem mono {lo' hi' : Nat} (h : FilterJoin stem lo hi j) (hlo : lo' ≤ lo) (hhi : hi ≤ hi') :
    FilterJoin stem lo' hi' j := by
  cases h with
  | parent => exact .parent
  | parentTag k h₁ h₂ => exact .parentTag k (hlo.trans h₁) (lt_of_lt_of_le h₂ hhi)
  | field k name h₁ h₂ => exact .field k name (hlo.trans h₁) (lt_of_lt_of_le h₂ hhi)

/-- Joins with separate numbers have one key only if both are the join of the parent. -/
theorem eq_parentJoin_of_key_eq (h : FilterJoin stem lo mid j) (h' : FilterJoin stem mid hi j')
    (hkey : j.key? = j'.key?) : j = parentJoin ∧ j' = parentJoin := by
  cases h with
  | parent =>
    cases h' with
    | parent => exact ⟨rfl, rfl⟩
    | parentTag k _ _ => exact absurd (Option.some.inj hkey) (by simp)
    | field k name _ _ => exact absurd (Option.some.inj hkey) (by simp)
  | parentTag k _ hk =>
    cases h' with
    | parent => exact absurd (Option.some.inj hkey) (by simp)
    | parentTag k' hk' _ =>
      -- One number cannot lie on both sides of `mid`.
      have heq : k = k' := text_number_inj (JoinKey.parentTags.inj (Option.some.inj hkey))
      omega
    | field k' name _ _ => exact absurd (Option.some.inj hkey) (by simp)
  | field k name _ hk =>
    cases h' with
    | parent => exact absurd (Option.some.inj hkey) (by simp)
    | parentTag k' _ _ => exact absurd (Option.some.inj hkey) (by simp)
    | field k' name' hk' _ =>
      have heq : k = k' := text_number_inj (JoinKey.fieldValue.inj (Option.some.inj hkey))
      omega

end FilterJoin

/-! ### Filters -/

namespace Filter

variable {stem : String} {lo mid hi : Nat} {f g : Filter}

theorem and_assoc (f g h : Filter) : (f.and g).and h = f.and (g.and h) := by
  have hjoins := JoinSet.insertAll_joins_insertAll f.joins g.joins h.joins.joins
  unfold Filter.and JoinSet.union
  rw [hjoins, List.append_assoc]

theorem and_none (f : Filter) : f.and none = f := by
  unfold Filter.and
  rw [show f.conditions ++ none.conditions = f.conditions from List.append_nil _]
  rfl

theorem none_and (hf : f.joins.Distinct) : none.and f = f := by
  have hjoins : (JoinSet.empty.insertAll f.joins.joins) = f.joins :=
    JoinSet.eq_of_joins_eq (JoinSet.joins_insertAll hf)
  show Filter.mk (JoinSet.empty.insertAll f.joins.joins) ([] ++ f.conditions) = f
  rw [hjoins, List.nil_append]

/-- Filters are put together from the first one on. -/
theorem all_cons (hf : f.joins.Distinct) (fs : List Filter) : all (f :: fs) = f.and (all fs) := by
  -- The filters are combined from the left; since that is associative, the first one may be set
  -- apart.
  have hfold : ∀ (fs : List Filter) (g h : Filter),
      fs.foldl Filter.and (g.and h) = g.and (fs.foldl Filter.and h) := by
    intro fs
    induction fs with
    | nil => exact fun g h => rfl
    | cons f' fs ih =>
      intro g h
      rw [List.foldl_cons, List.foldl_cons, and_assoc, ih]
  have hfirst : all (f :: fs) = fs.foldl Filter.and (f.and none) := by
    rw [and_none]
    show fs.foldl Filter.and (none.and f) = _
    rw [none_and hf]
  rw [hfirst, hfold]
  rfl

/-- The joins of a filter that was made with the numbers from `lo` up to `hi`. -/
structure Drawn (stem : String) (lo hi : Nat) (f : Filter) : Prop where
  le : lo ≤ hi
  joins : ∀ j ∈ f.joins.joins, FilterJoin stem lo hi j
  distinct : f.joins.Distinct
  ordered : WellScoped [.node] f.joins.joins

theorem Drawn.congr_joins (h : Drawn stem lo hi f) (hjoins : g.joins = f.joins) :
    Drawn stem lo hi g :=
  ⟨h.le, hjoins ▸ h.joins, hjoins ▸ h.distinct, hjoins ▸ h.ordered⟩

theorem Drawn.negated (h : Drawn stem lo hi f) : Drawn stem lo hi f.negated :=
  h.congr_joins rfl

theorem joins_grouped (kind : Connective) (f : Filter) : (f.grouped kind).joins = f.joins := by
  unfold grouped
  split <;> rfl

theorem Drawn.grouped (kind : Connective) (h : Drawn stem lo hi f) :
    Drawn stem lo hi (f.grouped kind) :=
  h.congr_joins (joins_grouped kind f)

theorem drawn_none (stem : String) (n : Nat) : Drawn stem n n none :=
  ⟨le_rfl, fun _ h => absurd h List.not_mem_nil, List.nodup_nil, trivial⟩

theorem separate_of_drawn (hf : Drawn stem lo mid f) (hg : Drawn stem mid hi g) :
    JoinSet.Separate f.joins g.joins.joins := by
  intro j hj j' hj' hkey
  rcases List.mem_append.mp hj' with hj' | hj'
  · obtain ⟨h₁, h₂⟩ := (hf.joins j' hj').eq_parentJoin_of_key_eq (hg.joins j hj) hkey.symm
    rw [h₁, h₂]
  · exact hg.distinct.eq_of_key_eq hj hj' hkey

/-- No join is lost when filters with separate numbers are put together. -/
theorem mem_and_iff (hf : Drawn stem lo mid f) (hg : Drawn stem mid hi g) (j : Join) :
    j ∈ (f.and g).joins.joins ↔ j ∈ f.joins.joins ∨ j ∈ g.joins.joins :=
  JoinSet.mem_insertAll_iff (separate_of_drawn hf hg) j

theorem Drawn.and (hf : Drawn stem lo mid f) (hg : Drawn stem mid hi g) :
    Drawn stem lo hi (f.and g) where
  le := hf.le.trans hg.le
  joins := by
    intro j hj
    rcases (mem_and_iff hf hg j).mp hj with hj | hj
    · exact (hf.joins j hj).mono le_rfl hg.le
    · exact (hg.joins j hj).mono hf.le le_rfl
  distinct := JoinSet.distinct_insertAll hf.distinct _
  ordered := JoinSet.wellScoped_insertAll hf.ordered hg.ordered
    (fun _ ha => List.mem_append_right _ ha) (fun _ ha => ha) (separate_of_drawn hf hg)

end Filter

/-! ### Filters of clauses -/

namespace Clause

variable {stem : String} {c : Clause} {nested : Bool} {n k : Nat} {f : Filter}

/-- A filter without joins takes any numbers. -/
theorem drawn_of_nil (condition : Condition) {lo hi : Nat} (hle : lo ≤ hi) :
    Filter.Drawn stem lo hi (.of condition []) :=
  ⟨hle, fun _ h => absurd h List.not_mem_nil, List.nodup_nil, trivial⟩

/-- A filter with joins of different keys that are declared in order. -/
theorem drawn_of_joins {condition : Condition} {js : List Join} {lo hi : Nat} (hle : lo ≤ hi)
    (hjoins : ∀ j ∈ js, FilterJoin stem lo hi j) (hkeys : (js.map Join.key?).Nodup)
    (hordered : WellScoped [.node] js) : Filter.Drawn stem lo hi (.of condition js) := by
  have heq : (Filter.of condition js).joins.joins = js := JoinSet.joins_ofList hkeys
  refine ⟨hle, ?_, ?_, ?_⟩
  · rw [heq]; exact hjoins
  · rw [JoinSet.Distinct, heq]; exact hkeys
  · rw [heq]; exact hordered

theorem nodup_keys_parentTag (n : Nat) :
    ([parentJoin, parentTagJoin (.parentTag n)].map Join.key?).Nodup := by
  rw [List.map_cons, List.map_singleton, List.nodup_cons, List.mem_singleton]
  exact ⟨by rintro ⟨⟩, List.nodup_singleton _⟩

theorem Becomes.drawn (h : c.Becomes stem nested n f k) : Filter.Drawn stem n k f := by
  cases h with
  | column k hroute => exact drawn_of_nil _ le_rfl
  | parentName hroute hjoined =>
    refine drawn_of_joins le_rfl ?_ (List.nodup_singleton _) ⟨by decide, by decide, trivial⟩
    intro j hj
    rw [List.mem_singleton.mp hj]
    exact .parent
  | nestedParentName hroute hop => exact drawn_of_nil _ (Nat.le_succ _)
  | parentTagPresence hroute hop => exact drawn_of_nil _ le_rfl
  | parentTag hroute hop hordering =>
    refine drawn_of_joins (Nat.le_succ _) ?_ (nodup_keys_parentTag n) ?_
    · intro j hj
      rcases List.mem_pair.mp hj with rfl | rfl
      · exact .parent
      · exact .parentTag n le_rfl (Nat.lt_succ_self n)
    · refine ⟨by decide, by decide, ?_, ?_, trivial⟩
      · simp [parentTagJoin, parentJoin]
      · rw [Join.names_parentTagJoin (by simp)]
        simp [parentJoin]
  | nestedParentTag hroute hop hordering => exact drawn_of_nil _ (Nat.le_succ _)
  | fieldPresence field hroute hop => exact drawn_of_nil _ (Nat.le_succ _)
  | field field holds hroute hop hholds =>
    refine drawn_of_joins (Nat.le_succ _) ?_ (List.nodup_singleton _) ?_
    · intro j hj
      rw [List.mem_singleton.mp hj]
      exact .field n field le_rfl (Nat.lt_succ_self n)
    · refine ⟨by simp [fieldJoin], ?_, trivial⟩
      rw [Join.names_fieldJoin (by simp)]
      exact List.Subset.refl _
  | nestedField field holds hroute hop hholds => exact drawn_of_nil _ (Nat.le_succ _)

end Clause

/-! ### Filters of entries -/

namespace Entry

variable {stem : String}

theorem drawn_all {es : List Entry} {nested : Bool}
    (hes : ∀ e ∈ es, ∀ {n k f}, Yields (e.filter stem nested) n f k → Filter.Drawn stem n k f)
    {n k : Nat} {fs : List Filter} (h : Yields (filters stem nested es) n fs k) :
    Filter.Drawn stem n k (Filter.all fs) :=
  all_of_yields (fun lo hi f _ => Filter.Drawn stem lo hi f) (fun _ => ([] : List Unit))
    (Filter.drawn_none stem) Filter.Drawn.and hes h

theorem drawn_of_yields (e : Entry) : ∀ {nested : Bool} {n k : Nat} {f : Filter},
    Yields (e.filter stem nested) n f k → Filter.Drawn stem n k f :=
  filter_induction Clause.Becomes.drawn Filter.Drawn.negated
    (fun kind hes h => (drawn_all hes h).grouped kind) e

/-- The numbers of the first filter of a list lie before those of the others. -/
theorem exists_drawn_of_yields_cons {e : Entry} {es : List Entry} {nested : Bool} {n k : Nat}
    {fs : List Filter} (h : Yields (filters stem nested (e :: es)) n fs k) :
    ∃ f gs i, fs = f :: gs ∧ Yields (e.filter stem nested) n f i ∧
      Yields (filters stem nested es) i gs k ∧
      Filter.Drawn stem n i f ∧ Filter.Drawn stem i k (Filter.all gs) := by
  obtain ⟨f, gs, i, hf, hgs, rfl⟩ := yields_cons h
  exact ⟨f, gs, i, rfl, hf, hgs, e.drawn_of_yields hf, drawn_all (fun e _ => e.drawn_of_yields) hgs⟩

/-- What is kept when filters with separate numbers are put together holds of the filter of a list;
see `all_of_yields`. -/
theorem all_of_yields_of_drawn {α : Type} (P : Filter → List α → Prop) (value : Entry → List α)
    (hnone : P Filter.none [])
    (hand : ∀ {lo mid hi f g as bs}, Filter.Drawn stem lo mid f → Filter.Drawn stem mid hi g →
      P f as → P g bs → P (f.and g) (as ++ bs))
    {es : List Entry} {nested : Bool}
    (hes : ∀ e ∈ es, ∀ {n k f}, Yields (e.filter stem nested) n f k → P f (value e))
    {n k : Nat} {fs : List Filter} (h : Yields (filters stem nested es) n fs k) :
    P (Filter.all fs) (es.flatMap value) := by
  have hall := all_of_yields (fun lo hi f as => Filter.Drawn stem lo hi f ∧ P f as) value
    (fun n => ⟨Filter.drawn_none stem n, hnone⟩)
    (fun hf hg => ⟨hf.1.and hg.1, hand hf.1 hg.1 hf.2 hg.2⟩)
    (fun e he _ _ _ h => ⟨e.drawn_of_yields h, hes e he h⟩) h
  exact hall.2

end Entry

theorem Filter.drawn_of_ofEntries {es : List Entry} {f : Filter} (h : ofEntries es = .ok f) :
    ∃ k, Drawn defaultStem 0 k f := by
  obtain ⟨fs, k, hfs, rfl⟩ := yields_of_ofEntries h
  exact ⟨k, Entry.drawn_all (fun e _ => e.drawn_of_yields) hfs⟩

end GraphIndex
