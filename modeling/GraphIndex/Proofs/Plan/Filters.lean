import GraphIndex.Proofs.Plan.JoinSets
import GraphIndex.Proofs.Statement.Truth

/-!
# What filters say of a node

A filter is `Exact` for a node if its conditions have fixed truth values, whatever rows it brings
in: this is what becomes of conditions below a negation. A filter `Means` truth values for a node
if no rows that it brings in make more of its conditions true than these, and some rows make as many
true: this is what becomes of conditions that each pick a row of their own. Both are kept by
`Filter.and` (`Exact.and`, `Means.and`) and by groups, since "and" and "or" are monotone; only
exactness is kept by negation.
-/

namespace GraphIndex

/-- The number of a row that a comparison brings in. -/
def Alias.number? : Alias → Option Nat
  | parentTag k => some k
  | fieldValue _ k => some k
  | _ => none

theorem FilterJoin.number_bounds {stem : String} {lo hi : Nat} {j : Join}
    (h : FilterJoin stem lo hi j) {k : Nat} (hk : j.source.name.number? = some k) :
    lo ≤ k ∧ k < hi := by
  cases h with
  | parent => exact absurd hk (by rintro ⟨⟩)
  | parentTag k' hlo hhi =>
    rw [← Option.some.inj hk]
    exact ⟨hlo, hhi⟩
  | field k' name hlo hhi =>
    rw [← Option.some.inj hk]
    exact ⟨hlo, hhi⟩

/-! ### Lists of truth values -/

/-- The truth of a group as a list; a group without members says nothing. -/
def Connective.groupTruths (kind : Connective) (ts : List (Option Bool)) : List (Option Bool) :=
  if ts.isEmpty then [] else [kind.fold ts]

theorem Connective.groupTruths_mono (kind : Connective) {as bs : List (Option Bool)}
    (h : List.Forall₂ Entails as bs) :
    List.Forall₂ Entails (kind.groupTruths as) (kind.groupTruths bs) := by
  cases h with
  | nil => exact List.Forall₂.nil
  | cons hhead htail =>
    exact List.Forall₂.cons (kind.fold_mono (List.Forall₂.cons hhead htail)) List.Forall₂.nil

theorem forall₂_entails_refl (ts : List (Option Bool)) : List.Forall₂ Entails ts ts :=
  List.forall₂_same.mpr fun t _ => Entails.refl t

namespace Filter

section

variable (store : Store) (σ : Scope) (f : Filter)

theorem truths_grouped (kind : Connective) :
    Condition.truths store σ (f.grouped kind).conditions
      = kind.groupTruths (Condition.truths store σ f.conditions) := by
  unfold grouped Connective.groupTruths
  rw [Condition.truths_eq_map, Condition.truths_eq_map, List.isEmpty_map]
  by_cases h : f.conditions.isEmpty = true
  · rw [if_pos h, if_pos h, List.isEmpty_iff.mp h]
    rfl
  · rw [if_neg h, if_neg h, List.map_singleton, Condition.truth, Condition.truths_eq_map]

theorem truths_negated :
    Condition.truths store σ f.negated.conditions
      = (Condition.truths store σ f.conditions).map (Option.map (!·)) := by
  rw [Condition.truths_eq_map, Condition.truths_eq_map, negated, List.map_map, List.map_map]
  rfl

end

/-! ### Rows of a node -/

variable {store : Store} {r : NodeRow} {stem : String} {lo mid hi : Nat} {f g : Filter}
  {ts us : List (Option Bool)} {σ : Scope}

/-- The rows at hand are those of a node and, if the filter joins it, of its parent. -/
structure Grounded (store : Store) (r : NodeRow) (f : Filter) (σ : Scope) : Prop where
  node : σ.row .node = .node r
  parent : parentJoin ∈ f.joins.joins → parentJoin.Fits store σ

theorem Grounded.left (hf : Drawn stem lo mid f) (hg : Drawn stem mid hi g)
    (h : (f.and g).Grounded store r σ) : f.Grounded store r σ :=
  ⟨h.node, fun hp => h.parent ((mem_and_iff hf hg _).mpr (Or.inl hp))⟩

theorem Grounded.right (hf : Drawn stem lo mid f) (hg : Drawn stem mid hi g)
    (h : (f.and g).Grounded store r σ) : g.Grounded store r σ :=
  ⟨h.node, fun hp => h.parent ((mem_and_iff hf hg _).mpr (Or.inr hp))⟩

/-! ### Filters of fixed truth -/

/-- The conditions of a filter have fixed truth values for a node. -/
structure Exact (store : Store) (r : NodeRow) (f : Filter) (ts : List (Option Bool)) : Prop where
  joins : ∀ j ∈ f.joins.joins, j = parentJoin
  truths : ∀ σ, f.Grounded store r σ → Condition.truths store σ f.conditions = ts

theorem exact_none (store : Store) (r : NodeRow) : none.Exact store r [] :=
  ⟨fun _ h => absurd h List.not_mem_nil, fun _ _ => rfl⟩

theorem Exact.and (hf : Drawn stem lo mid f) (hg : Drawn stem mid hi g)
    (h : f.Exact store r ts) (h' : g.Exact store r us) : (f.and g).Exact store r (ts ++ us) where
  joins := fun j hj => ((mem_and_iff hf hg j).mp hj).elim (h.joins j) (h'.joins j)
  truths := by
    intro σ hσ
    rw [Filter.and, Condition.truths_append, h.truths σ (hσ.left hf hg),
      h'.truths σ (hσ.right hf hg)]

theorem Exact.grouped (kind : Connective) (h : f.Exact store r ts) :
    (f.grouped kind).Exact store r (kind.groupTruths ts) where
  joins := by
    rw [joins_grouped]
    exact h.joins
  truths := by
    intro σ hσ
    have hground : f.Grounded store r σ := ⟨hσ.node, joins_grouped kind f ▸ hσ.parent⟩
    rw [truths_grouped, h.truths σ hground]

theorem Exact.negated (h : f.Exact store r ts) :
    f.negated.Exact store r (ts.map (Option.map (!·))) where
  joins := h.joins
  truths := by
    intro σ hσ
    rw [truths_negated, h.truths σ ⟨hσ.node, hσ.parent⟩]

/-! ### Filters that pick rows -/

/-- The rows of the numbered joins of a filter are given by their numbers. -/
def Picks (f : Filter) (rows : Nat → Row) (σ : Scope) : Prop :=
  ∀ j ∈ f.joins.joins, ∀ k, j.source.name.number? = some k → σ.row j.source.name = rows k

/-- The joined rows of a node make at most these truth values true, and some rows make all of these
true. -/
structure Means (store : Store) (r : NodeRow) (f : Filter) (ts : List (Option Bool)) : Prop where
  sound : ∀ σ, σ.row .node = .node r → (∀ j ∈ f.joins.joins, j.Fits store σ) →
    List.Forall₂ Entails (Condition.truths store σ f.conditions) ts
  attained : ∃ rows, ∀ σ, f.Grounded store r σ → f.Picks rows σ →
    (∀ j ∈ f.joins.joins, j.Fits store σ) ∧
      List.Forall₂ Entails ts (Condition.truths store σ f.conditions)

theorem Exact.means (h : f.Exact store r ts) : f.Means store r ts where
  sound := by
    intro σ hnode hfits
    rw [h.truths σ ⟨hnode, hfits _⟩]
    exact forall₂_entails_refl ts
  attained := by
    refine ⟨fun _ => .missing, fun σ hσ _ => ⟨fun j hj => ?_, ?_⟩⟩
    · have hparent := h.joins j hj
      subst hparent
      exact hσ.parent hj
    · rw [h.truths σ hσ]
      exact forall₂_entails_refl ts

/-- **Each part of a filter picks its rows on its own**: rows picked for two filters with separate
numbers are picked together. -/
theorem Means.and (hf : Drawn stem lo mid f) (hg : Drawn stem mid hi g)
    (h : f.Means store r ts) (h' : g.Means store r us) : (f.and g).Means store r (ts ++ us) where
  sound := by
    intro σ hnode hfits
    rw [Filter.and, Condition.truths_append]
    apply List.rel_append
    · exact h.sound σ hnode fun j hj => hfits j ((mem_and_iff hf hg j).mpr (Or.inl hj))
    · exact h'.sound σ hnode fun j hj => hfits j ((mem_and_iff hf hg j).mpr (Or.inr hj))
  attained := by
    obtain ⟨rows, hrows⟩ := h.attained
    obtain ⟨rows', hrows'⟩ := h'.attained
    -- The numbers of the first filter lie below `mid`, those of the second do not.
    refine ⟨fun k => if k < mid then rows k else rows' k, fun σ hσ hpicks => ?_⟩
    have hpicked : f.Picks rows σ := by
      intro j hj k hk
      rw [hpicks j ((mem_and_iff hf hg j).mpr (Or.inl hj)) k hk]
      exact if_pos ((hf.joins j hj).number_bounds hk).2
    have hpicked' : g.Picks rows' σ := by
      intro j hj k hk
      rw [hpicks j ((mem_and_iff hf hg j).mpr (Or.inr hj)) k hk]
      exact if_neg (Nat.not_lt.mpr ((hg.joins j hj).number_bounds hk).1)
    obtain ⟨hfits, htruths⟩ := hrows σ (hσ.left hf hg) hpicked
    obtain ⟨hfits', htruths'⟩ := hrows' σ (hσ.right hf hg) hpicked'
    constructor
    · exact fun j hj => ((mem_and_iff hf hg j).mp hj).elim (hfits j) (hfits' j)
    · rw [Filter.and, Condition.truths_append]
      exact List.rel_append htruths htruths'

theorem Means.grouped (kind : Connective) (h : f.Means store r ts) :
    (f.grouped kind).Means store r (kind.groupTruths ts) where
  sound := by
    intro σ hnode hfits
    rw [truths_grouped]
    rw [joins_grouped] at hfits
    exact kind.groupTruths_mono (h.sound σ hnode hfits)
  attained := by
    obtain ⟨rows, hrows⟩ := h.attained
    refine ⟨rows, fun σ hσ hpicks => ?_⟩
    unfold Picks at hpicks
    rw [joins_grouped] at hpicks
    obtain ⟨hfits, htruths⟩ := hrows σ ⟨hσ.node, joins_grouped kind f ▸ hσ.parent⟩ hpicks
    rw [joins_grouped, truths_grouped]
    exact ⟨hfits, kind.groupTruths_mono htruths⟩

end Filter

end GraphIndex
