import GraphIndex.Plan.Page
import GraphIndex.Proofs.Plan.Trees

/-!
# The nodes of a selection

`Selection.mem_nodes_iff` says which nodes the selection of a target and its conditions has: those
of the target of which all conditions are true.
-/

namespace GraphIndex

variable {store : Store} {r : NodeRow} {σ : Scope} {find : String} {es : List Entry}

/-! ### Results that may be faults -/

section

variable {ε ε' α β : Type}

theorem bind_eq_ok_iff {x : Except ε α} {f : α → Except ε β} {b : β} :
    x >>= f = .ok b ↔ ∃ a, x = .ok a ∧ f a = .ok b := by
  cases x with
  | error e => exact ⟨fun h => absurd h (by rintro ⟨⟩), fun ⟨a, h, _⟩ => absurd h (by rintro ⟨⟩)⟩
  | ok a =>
    constructor
    · exact fun h => ⟨a, rfl, h⟩
    · rintro ⟨a', ha, h⟩
      rw [Except.ok.inj ha]
      exact h

theorem bind_eq_error_iff {x : Except ε α} {f : α → Except ε β} {e : ε} :
    x >>= f = .error e ↔ x = .error e ∨ ∃ a, x = .ok a ∧ f a = .error e := by
  cases x with
  | error e' => exact ⟨fun h => Or.inl (congrArg Except.error (Except.error.inj h)), fun h => by
      rcases h with h | ⟨a, h, -⟩
      · exact congrArg Except.error (Except.error.inj h)
      · exact absurd h (by rintro ⟨⟩)⟩
  | ok a =>
    constructor
    · exact fun h => Or.inr ⟨a, rfl, h⟩
    · rintro (h | ⟨a', ha, h⟩)
      · exact absurd h (by rintro ⟨⟩)
      · rw [Except.ok.inj ha]
        exact h

theorem map_eq_ok_iff {x : Except ε α} {f : α → β} {b : β} :
    x.map f = .ok b ↔ ∃ a, x = .ok a ∧ b = f a := by
  cases x with
  | error e => exact ⟨by rintro ⟨⟩, fun ⟨a, h, _⟩ => absurd h (by rintro ⟨⟩)⟩
  | ok a =>
    constructor
    · intro h
      exact ⟨a, rfl, (Except.ok.inj h).symm⟩
    · rintro ⟨a', ha, rfl⟩
      rw [Except.ok.inj ha]
      rfl

theorem map_eq_error_iff {x : Except ε α} {f : α → β} {e : ε} :
    x.map f = .error e ↔ x = .error e := by
  cases x <;> simp [Except.map]

theorem mapError_eq_ok_iff {x : Except ε α} {f : ε → ε'} {a : α} :
    x.mapError f = .ok a ↔ x = .ok a := by
  cases x with
  | error e => exact ⟨fun h => absurd h (by rintro ⟨⟩), fun h => absurd h (by rintro ⟨⟩)⟩
  | ok b => exact ⟨fun h => congrArg Except.ok (Except.ok.inj h),
      fun h => congrArg Except.ok (Except.ok.inj h)⟩

theorem eq_ok_of_toOption_eq_some {x : Except ε α} {a : α} (h : x.toOption = some a) :
    x = .ok a := by
  cases x with
  | error e => exact absurd h (by rintro ⟨⟩)
  | ok b => exact congrArg Except.ok (Option.some.inj h)

end

/-! ### Targets -/

/-- Whether a node is one of those that a target has. -/
def Store.IsOf (store : Store) (find : String) (r : NodeRow) : Prop :=
  r ∈ store.nodes ∧ store.isTarget r find = true

/-- A target joins its tag at most. -/
theorem targetJoins_cases (find : String) :
    targetJoins find = .empty ∨ targetJoins find = .ofList [tagJoin find] := by
  unfold targetJoins
  split
  · exact Or.inl rfl
  · exact Or.inr rfl

theorem size_targetJoins_le (find : String) : (targetJoins find).size ≤ 1 := by
  rcases targetJoins_cases find with h | h <;> rw [h]
  · exact Nat.zero_le 1
  · exact Nat.le_refl 1

theorem joins_targetJoins (find : String) :
    (targetJoins find).joins = if targetsAllNodes find then [] else [tagJoin find] := by
  unfold targetJoins
  split <;> rfl

theorem eq_tagJoin_of_mem {j : Join} (h : j ∈ (targetJoins find).joins) : j = tagJoin find := by
  rw [joins_targetJoins] at h
  split at h
  · exact absurd h List.not_mem_nil
  · exact List.mem_singleton.mp h

theorem isTarget_of_fits (hnode : σ.row .node = .node r)
    (hfits : ∀ j ∈ (targetJoins find).joins, j.Fits store σ) : store.isTarget r find = true := by
  unfold Store.isTarget
  by_cases hall : targetsAllNodes find = true
  · rw [hall, Bool.true_or]
  · rw [joins_targetJoins, if_neg hall, List.forall_mem_singleton] at hfits
    have hrow : σ.row .tagged ∈ (tagJoin find).partners store σ := hfits
    rw [partners_tagJoin hnode] at hrow
    obtain ⟨t, ht, -⟩ := List.mem_map.mp hrow
    obtain ⟨hmem, htag⟩ := List.mem_filter.mp ht
    rw [Bool.or_eq_true]
    exact Or.inr (List.any_eq_true.mpr ⟨t, hmem, htag⟩)

/-- A node of a target has a row that fits its join. -/
theorem exists_fits_of_isTarget (h : store.isTarget r find = true) :
    ∃ row, ∀ σ : Scope, σ.row .node = .node r → ∀ j ∈ (targetJoins find).joins,
      σ.row j.source.name = row → j.Fits store σ := by
  rw [joins_targetJoins]
  by_cases hall : targetsAllNodes find = true
  · rw [if_pos hall]
    exact ⟨.missing, fun _ _ j hj => absurd hj List.not_mem_nil⟩
  · rw [Store.isTarget, Bool.or_eq_true, List.any_eq_true] at h
    obtain ⟨t, ht, htag⟩ := h.resolve_left hall
    rw [if_neg hall]
    refine ⟨.tag t, fun σ hnode => List.forall_mem_singleton.mpr fun hrow => ?_⟩
    show σ.row (tagJoin find).source.name ∈ (tagJoin find).partners store σ
    rw [partners_tagJoin hnode, hrow]
    exact List.mem_map_of_mem (List.mem_filter.mpr ⟨ht, htag⟩)

/-! ### Joins of a selection -/

theorem separate_targetJoins {stem : String} {lo hi : Nat} {f : Filter}
    (hf : Filter.Drawn stem lo hi f) : JoinSet.Separate (targetJoins find) f.joins.joins := by
  intro j hj j' hj' hkey
  rcases List.mem_append.mp hj' with hj' | hj'
  · rw [eq_tagJoin_of_mem hj'] at hkey
    cases hf.joins j hj with
    | parent => exact absurd (Option.some.inj hkey) (by simp)
    | parentTag k _ _ => exact absurd (Option.some.inj hkey) (by simp)
    | field k name _ _ => exact absurd (Option.some.inj hkey) (by simp)
  · exact hf.distinct.eq_of_key_eq hj hj' hkey

theorem wellScoped_targetJoins (find : String) :
    WellScoped [.node] (targetJoins find).joins := by
  rw [joins_targetJoins]
  split
  · trivial
  · refine ⟨by simp [tagJoin], ?_, trivial⟩
    rw [Join.names_tagJoin]
    exact List.Subset.refl _

theorem Selection.of_eq_ok_iff {s : Selection} :
    Selection.of find es = .ok s ↔ ∃ f, Filter.ofEntries es = .ok f
      ∧ s = ⟨(targetJoins find).union f.joins, f.conditions⟩ := by
  rw [Selection.of, bind_eq_ok_iff]
  refine exists_congr fun f => and_congr_right fun _ => ?_
  exact ⟨fun h => (Except.ok.inj h).symm, fun h => congrArg Except.ok h.symm⟩

/-- A selection joins its target and what its conditions bring in, in order. -/
theorem Selection.joins_of {s : Selection} (h : Selection.of find es = .ok s) :
    ∃ f, Filter.ofEntries es = .ok f ∧ s.conditions = f.conditions
      ∧ WellScoped [.node] s.joins.joins
      ∧ ∀ j, j ∈ s.joins.joins ↔ j ∈ (targetJoins find).joins ∨ j ∈ f.joins.joins := by
  obtain ⟨f, hf, rfl⟩ := Selection.of_eq_ok_iff.mp h
  obtain ⟨k, hdrawn⟩ := Filter.drawn_of_ofEntries hf
  refine ⟨f, hf, rfl, ?_, JoinSet.mem_insertAll_iff (separate_targetJoins hdrawn)⟩
  exact JoinSet.wellScoped_insertAll (wellScoped_targetJoins find) hdrawn.ordered
    (fun _ ha => List.mem_append_right _ ha) (fun _ ha => ha) (separate_targetJoins hdrawn)

/-! ### Nodes of a selection -/

/-- The rows of a node and its parent, a row for the target and the rows of numbered joins. -/
def givenRows (store : Store) (r : NodeRow) (tagged : Row) (rows : Nat → Row) : Alias → Row
  | .node => .node r
  | .parent => ((store.parent? r).map Row.node).getD .missing
  | .tagged => tagged
  | a => (a.number?.map rows).getD .missing

theorem givenRows_of_number {tagged : Row} {rows : Nat → Row} {a : Alias} {k : Nat}
    (h : a.number? = some k) : givenRows store r tagged rows a = rows k := by
  cases a with
  | parentTag k' => exact congrArg rows (Option.some.inj h)
  | fieldValue stem k' => exact congrArg rows (Option.some.inj h)
  | _ => exact absurd h (by rintro ⟨⟩)

/-- The given rows are those of the node and its parent, and those picked for numbered joins. -/
theorem grounded_and_picks_of_givenRows (hids : store.UniqueIds) {f : Filter} (tagged : Row)
    {rows : Nat → Row} (hnode : σ.row .node = .node r)
    (hσ : ∀ j ∈ f.joins.joins, σ.row j.source.name = givenRows store r tagged rows j.source.name) :
    f.Grounded store r σ ∧ f.Picks rows σ := by
  refine ⟨⟨hnode, fun hparent => ?_⟩, fun j hj k hk => ?_⟩
  · exact (mem_choices_parentJoin hnode hids _).mpr (hσ parentJoin hparent)
  · rw [hσ j hj, givenRows_of_number hk]

/-- Rows under given aliases can be set beside each other. -/
theorem exists_mem_extendAll_of_rows {js : List Join} (hscoped : WellScoped [.node] js)
    {rows : Alias → Row} (hnode : rows .node = .node r)
    (hfits : ∀ σ : Scope, (∀ a ∈ joinNames js ++ [.node], σ.row a = rows a) →
      ∀ j ∈ js, j.Fits store σ) :
    ∃ σ ∈ extendAll store js [[(.node, .node r)]],
      ∀ a ∈ joinNames js ++ [.node], σ.row a = rows a := by
  set τ : Scope := (joinNames js ++ [Alias.node]).map fun a => (a, rows a)
  have hτ : ∀ a ∈ joinNames js ++ [.node], τ.row a = rows a :=
    fun a ha => Scope.row_map rows ha
  have hdeclared : Scope.Agree [.node] [(.node, .node r)] τ := by
    intro a ha
    rw [List.mem_singleton.mp ha, hτ _ (List.mem_append_right _ (List.mem_singleton_self _)), hnode]
    rfl
  obtain ⟨σ, hσ, hagree⟩ := exists_mem_extendAll hscoped hdeclared (hfits τ hτ)
  exact ⟨σ, hσ, fun a ha => (hagree a ha).trans (hτ a ha)⟩

theorem Selection.mem_nodes {s : Selection} :
    r ∈ s.nodes store ↔ r ∈ store.nodes ∧
      ∃ σ ∈ extendAll store s.joins.joins [[(.node, .node r)]],
        Condition.allTrue store σ s.conditions = true := by
  unfold Selection.nodes Selection.rows
  simp only [List.mem_map, List.mem_flatMap, List.mem_filter]
  constructor
  · rintro ⟨_, ⟨r', hr', σ, hσ, rfl⟩, rfl⟩
    exact ⟨hr', σ, hσ⟩
  · rintro ⟨hr, σ, hσ⟩
    exact ⟨(r, σ), ⟨r, hr, σ, hσ, rfl⟩, rfl⟩

theorem Selection.of_mem_nodes (hids : store.UniqueIds) {s : Selection}
    (h : Selection.of find es = .ok s) (hr : r ∈ s.nodes store) :
    store.isTarget r find = true ∧
      ∀ t ∈ Entry.splitTruths (store.view r) (store.nestedView r) es, t = some true := by
  obtain ⟨f, hf, hconditions, hscoped, hjoins⟩ := Selection.joins_of h
  obtain ⟨-, σ, hσ, htrue⟩ := Selection.mem_nodes.mp hr
  obtain ⟨hagree, hfits⟩ := fits_of_mem_extendAll hscoped hσ
  have hnode : σ.row .node = .node r := hagree _ (List.mem_singleton_self _)
  have hmeans : f.Means store r _ := Filter.means_of_ofEntries hids hf
  refine ⟨isTarget_of_fits hnode fun j hj => hfits j ((hjoins j).mpr (Or.inl hj)), ?_⟩
  refine all_true_of_entails
    (hmeans.sound σ hnode fun j hj => hfits j ((hjoins j).mpr (Or.inr hj))) ?_
  rw [hconditions, Condition.allTrue_iff] at htrue
  rw [Condition.truths_eq_map, List.forall_mem_map]
  exact htrue

theorem Selection.mem_nodes_of (hids : store.UniqueIds) {s : Selection}
    (h : Selection.of find es = .ok s) (hr : r ∈ store.nodes)
    (htarget : store.isTarget r find = true)
    (htruths : ∀ t ∈ Entry.splitTruths (store.view r) (store.nestedView r) es, t = some true) :
    r ∈ s.nodes store := by
  obtain ⟨f, hf, hconditions, hscoped, hjoins⟩ := Selection.joins_of h
  have hmeans : f.Means store r _ := Filter.means_of_ofEntries hids hf
  obtain ⟨tagged, htagged⟩ := exists_fits_of_isTarget htarget
  obtain ⟨rows, hrows⟩ := hmeans.attained
  have hname : ∀ j ∈ s.joins.joins, j.source.name ∈ joinNames s.joins.joins ++ [.node] :=
    fun j hj => List.mem_append_left _ (List.mem_map_of_mem hj)
  -- Under these rows all joins have a choice and all conditions are true.
  have hgiven : ∀ σ : Scope, (∀ a ∈ joinNames s.joins.joins ++ [.node],
      σ.row a = givenRows store r tagged rows a) →
        f.Grounded store r σ ∧ f.Picks rows σ := by
    intro σ hσ
    refine grounded_and_picks_of_givenRows hids tagged ?_ fun j hj => ?_
    · exact hσ .node (List.mem_append_right _ (List.mem_singleton_self _))
    · exact hσ _ (hname j ((hjoins j).mpr (Or.inr hj)))
  have hexists : ∃ σ ∈ extendAll store s.joins.joins [[(.node, .node r)]],
      ∀ a ∈ joinNames s.joins.joins ++ [.node], σ.row a = givenRows store r tagged rows a := by
    refine exists_mem_extendAll_of_rows hscoped rfl fun σ hσ j hj => ?_
    obtain ⟨hground, hpicks⟩ := hgiven σ hσ
    rcases (hjoins j).mp hj with hj' | hj'
    · apply htagged σ hground.node j hj'
      rw [hσ _ (hname j hj), eq_tagJoin_of_mem hj']
      rfl
    · exact (hrows σ hground hpicks).1 j hj'
  obtain ⟨σ, hσ, hσrows⟩ := hexists
  obtain ⟨hground, hpicks⟩ := hgiven σ hσrows
  have htrue := all_true_of_entails (hrows σ hground hpicks).2 htruths
  refine Selection.mem_nodes.mpr ⟨hr, σ, hσ, (Condition.allTrue_iff _ _ _).mpr ?_⟩
  rw [hconditions]
  rw [Condition.truths_eq_map, List.forall_mem_map] at htrue
  exact htrue

/-- **The nodes of a selection** are those of the target of which all conditions are true. -/
theorem Selection.mem_nodes_iff (hids : store.UniqueIds) {s : Selection}
    (h : Selection.of find es = .ok s) (r : NodeRow) :
    r ∈ s.nodes store ↔ r ∈ store.nodes ∧ store.isTarget r find = true ∧
      ∀ t ∈ Entry.splitTruths (store.view r) (store.nestedView r) es, t = some true :=
  ⟨fun hr => ⟨(Selection.mem_nodes.mp hr).1, Selection.of_mem_nodes hids h hr⟩,
    fun ⟨hr, htarget, htruths⟩ => Selection.mem_nodes_of hids h hr htarget htruths⟩

end GraphIndex
