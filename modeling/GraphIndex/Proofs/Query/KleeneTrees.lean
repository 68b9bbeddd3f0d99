import GraphIndex.Proofs.Plan.Numbering
import GraphIndex.Proofs.Plan.Selections
import GraphIndex.Proofs.Query.Meaning
import GraphIndex.Proofs.Statement.Truth
import GraphIndex.Query.Resolve

/-!
# Trees of conditions over any truth of clauses

The connectives alone say what a tree means once the truth of its clauses is given, whatever that
is. `Entry.truthBy` is this meaning; no member of a group is left out of it, not even a group
without members. `Entry.truths_eq_truthsBy` says that the meaning for a stored node is of this kind:
the truth of a clause is that for the node, once dates are points in time.
-/

namespace GraphIndex

/-- The truth of a condition by its field, its operator and its value. -/
abbrev ClauseTruth := String → Operator → Operand → Option Bool

theorem negateIf_not (negated : Bool) (b : Option Bool) :
    negateIf (!negated) b = (negateIf negated b).map (!·) := by
  cases negated <;> rcases b with _ | _ | _ <;> rfl

namespace Connective

theorem fold_any_eq_true_iff (bs : List (Option Bool)) :
    any.fold bs = some true ↔ ∃ b ∈ bs, b = some true := by
  induction bs with
  | nil => simp [fold, unit]
  | cons b bs ih => rw [fold_cons, combine_any_eq_true_iff, ih, List.exists_mem_cons_iff]

theorem fold_singleton (kind : Connective) (b : Option Bool) : kind.fold [b] = b := by
  cases kind <;> rcases b with _ | _ | _ <;> rfl

end Connective

namespace Entry

/-! ### Truth -/

mutual

/-- The truth of a tree, given that of its clauses without their negations. -/
def truthBy (t : ClauseTruth) : Entry → Option Bool
  | clause c => negateIf c.negated (t c.field c.operator c.value)
  | group kind members negated => negateIf negated (kind.fold (truthsBy t members))

def truthsBy (t : ClauseTruth) : List Entry → List (Option Bool)
  | [] => []
  | e :: rest => e.truthBy t :: truthsBy t rest

end

/-- Whether all trees of a list are true. -/
def AllTrue (t : ClauseTruth) (es : List Entry) : Prop := ∀ e ∈ es, e.truthBy t = some true

variable (t : ClauseTruth)

theorem truthsBy_eq_map (es : List Entry) : truthsBy t es = es.map (truthBy t) := by
  induction es with
  | nil => rfl
  | cons e es ih => rw [truthsBy, ih, List.map_cons]

theorem truthBy_negate (e : Entry) : e.negate.truthBy t = (e.truthBy t).map (!·) := by
  cases e with
  | clause c => exact negateIf_not c.negated _
  | group kind members negated => exact negateIf_not negated _

theorem truthBy_plain (field : String) (op : Operator) (v : Operand) :
    (clause (.plain field op v)).truthBy t = t field op v := rfl

theorem truthBy_all_iff (es : List Entry) :
    (group .all es false).truthBy t = some true ↔ AllTrue t es := by
  show Connective.all.fold (truthsBy t es) = some true ↔ _
  rw [Connective.fold_all_eq_true_iff, truthsBy_eq_map, List.forall_mem_map]
  exact Iff.rfl

theorem truthBy_any_iff (es : List Entry) :
    (group .any es false).truthBy t = some true ↔ ∃ e ∈ es, e.truthBy t = some true := by
  show Connective.any.fold (truthsBy t es) = some true ↔ _
  rw [Connective.fold_any_eq_true_iff, truthsBy_eq_map]
  simp only [List.mem_map, exists_exists_and_eq_and]

theorem allTrue_cons_iff {e : Entry} {es : List Entry} :
    AllTrue t (e :: es) ↔ e.truthBy t = some true ∧ AllTrue t es := List.forall_mem_cons

theorem allTrue_singleton_iff {e : Entry} : AllTrue t [e] ↔ e.truthBy t = some true :=
  List.forall_mem_singleton

theorem allTrue_append_iff {es fs : List Entry} :
    AllTrue t (es ++ fs) ↔ AllTrue t es ∧ AllTrue t fs := List.forall_mem_append

/-! ### Trees without empty groups -/

mutual

/-- Whether every group of a tree has a member. -/
def isFull : Entry → Bool
  | clause _ => true
  | group _ members _ => !members.isEmpty && allFull members

def allFull : List Entry → Bool
  | [] => true
  | e :: rest => e.isFull && allFull rest

end

theorem allFull_iff {es : List Entry} : allFull es = true ↔ ∀ e ∈ es, e.isFull = true := by
  induction es with
  | nil => simp [allFull]
  | cons e es ih => rw [allFull, Bool.and_eq_true, ih, List.forall_mem_cons]

theorem isFull_group_iff {kind : Connective} {members : List Entry} {negated : Bool} :
    (group kind members negated).isFull = true ↔
      members ≠ [] ∧ ∀ e ∈ members, e.isFull = true := by
  rw [isFull, Bool.and_eq_true, allFull_iff, Bool.not_eq_true', List.isEmpty_eq_false_iff]

theorem isFull_negate (e : Entry) : e.negate.isFull = e.isFull := by
  cases e <;> rfl

end Entry

/-! ### Stored nodes -/

/-- The truth of a condition for a node at a given time: its date is a point in time. It is unknown
if the date cannot be read. -/
def NodeView.truthAt (view : NodeView) (now : Int) : ClauseTruth := fun field op v =>
  match (Clause.plain field op v).resolve now with
  | .ok c => c.positiveTruth view
  | .error _ => none

variable {now : Int} {view : NodeView}

/-- Whether a clause is negated makes no difference to its date. -/
theorem Clause.resolve_eq_map_plain (now : Int) (c : Clause) :
    c.resolve now
      = ((plain c.field c.operator c.value).resolve now).map ({ · with negated := c.negated }) := by
  obtain ⟨field, op, v, negated⟩ := c
  unfold Clause.resolve Clause.plain
  dsimp only
  by_cases htest : op.isExistenceTest = true
  · rw [if_pos htest, if_pos htest]
    rfl
  rw [if_neg htest, if_neg htest]
  -- Resolving looks at the field, the operator and the value, never at the sign.
  by_cases hdate : isDateField field = true
  · rw [if_pos hdate, if_pos hdate]
    cases Moment.ofOperand now v <;> rfl
  rw [if_neg hdate, if_neg hdate]
  cases v with
  | text s =>
    dsimp only
    by_cases hlooks : Moment.looksLikeDate s = true
    · rw [if_pos hlooks, if_pos hlooks]
      cases Moment.ofText now s <;> rfl
    · rw [if_neg hlooks, if_neg hlooks]
      rfl
  | _ => rfl

theorem Clause.truth_of_resolve {c c' : Clause} (h : c.resolve now = .ok c') :
    c'.truth view = (Entry.clause c).truthBy (view.truthAt now) := by
  rw [Clause.resolve_eq_map_plain] at h
  unfold Entry.truthBy NodeView.truthAt
  cases hplain : (plain c.field c.operator c.value).resolve now with
  | error fault =>
    rw [hplain] at h
    exact absurd h (by rintro ⟨⟩)
  | ok d =>
    rw [hplain] at h
    obtain rfl := Except.ok.inj h
    rfl

namespace Entry

theorem mapClausesAll_cons_eq_ok_iff {ε : Type} {step : Clause → Except ε Clause} {e : Entry}
    {es es' : List Entry} : mapClausesAll step (e :: es) = .ok es' ↔
      ∃ e' rest, e.mapClauses step = .ok e' ∧ mapClausesAll step es = .ok rest
        ∧ es' = e' :: rest := by
  rw [mapClausesAll]
  simp only [bind_eq_ok_iff]
  constructor
  · rintro ⟨e', he', rest, hrest, hpure⟩
    exact ⟨e', rest, he', hrest, (Except.ok.inj hpure).symm⟩
  · rintro ⟨e', rest, he', hrest, rfl⟩
    exact ⟨e', he', rest, hrest, rfl⟩

/-- If every tree keeps a relation to its resolved form, the truths of a list do, provided that each
resolved tree holds a clause. -/
theorem truths_of_mapClausesAll {es : List Entry}
    (hes : ∀ e ∈ es, ∀ e', e.mapClauses (Clause.resolve now) = .ok e' →
      e'.hasClause = true ∧ e'.truth view = e.truthBy (view.truthAt now)) :
    ∀ {es'}, mapClausesAll (Clause.resolve now) es = .ok es' →
      (es ≠ [] → anyHasClause es' = true) ∧ truths view es' = truthsBy (view.truthAt now) es := by
  induction es with
  | nil =>
    intro es' h
    obtain rfl := Except.ok.inj h
    exact ⟨fun hne => absurd rfl hne, rfl⟩
  | cons e es ih =>
    intro es' h
    rw [List.forall_mem_cons] at hes
    obtain ⟨e', rest, he', hrest, rfl⟩ := mapClausesAll_cons_eq_ok_iff.mp h
    obtain ⟨hclause, htruth⟩ := hes.1 e' he'
    constructor
    · intro _
      rw [anyHasClause, hclause, Bool.true_or]
    · rw [truths, if_pos hclause, truthsBy, htruth, (ih hes.2 hrest).2]

/-- Dates as points in time: the truth of a tree for a node. -/
theorem truth_of_mapClauses (e : Entry) : ∀ e', e.isFull = true →
    e.mapClauses (Clause.resolve now) = .ok e' →
      e'.hasClause = true ∧ e'.truth view = e.truthBy (view.truthAt now) := by
  induction e using Entry.induction with
  | clause c =>
    intro e' _ h
    rw [mapClauses] at h
    cases hc : c.resolve now with
    | error fault =>
      rw [hc] at h
      exact absurd h (by rintro ⟨⟩)
    | ok c' =>
      rw [hc] at h
      obtain rfl := Except.ok.inj h
      exact ⟨rfl, Clause.truth_of_resolve hc⟩
  | group kind members negated ih =>
    intro e' hfull h
    obtain ⟨hne, hmembers⟩ := isFull_group_iff.mp hfull
    rw [mapClauses] at h
    cases hall : mapClausesAll (Clause.resolve now) members with
    | error fault =>
      rw [hall] at h
      exact absurd h (by rintro ⟨⟩)
    | ok members' =>
      rw [hall] at h
      obtain rfl := Except.ok.inj h
      have hresolved : ∀ e ∈ members, ∀ e', e.mapClauses (Clause.resolve now) = .ok e' →
          e'.hasClause = true ∧ e'.truth view = e.truthBy (view.truthAt now) :=
        fun e he e' => ih e he e' (hmembers e he)
      obtain ⟨hclause, htruths⟩ := truths_of_mapClausesAll hresolved hall
      exact ⟨hclause hne, by rw [truth, truthBy, htruths]⟩

/-- The truths of trees without empty groups, for a node of a store. -/
theorem truths_eq_truthsBy {es es' : List Entry} (hfull : ∀ e ∈ es, e.isFull = true)
    (h : resolveAll now es = .ok es') :
    truths view es' = truthsBy (view.truthAt now) es :=
  (truths_of_mapClausesAll (fun e he e' => truth_of_mapClauses e e' (hfull e he)) h).2

/-- A node meets trees without empty groups if all of them are true at the given time. -/
theorem all_truths_iff {es es' : List Entry} (hfull : ∀ e ∈ es, e.isFull = true)
    (h : resolveAll now es = .ok es') :
    ((truths view es').all (· == some true)) = true ↔ AllTrue (view.truthAt now) es := by
  rw [truths_eq_truthsBy hfull h, truthsBy_eq_map, List.all_eq_true, List.forall_mem_map]
  simp only [beq_iff_eq]
  exact Iff.rfl

end Entry

end GraphIndex
