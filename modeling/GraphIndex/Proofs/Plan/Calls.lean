import GraphIndex.Proofs.Plan.Handed

/-!
# Runs of one compiler

Conditions can be compiled one call after the other, each call taking its numbers from where the
call before it stopped, whether that call failed or not. No two aliases of a run agree, so filters
of one run can be put together: of their joins only repeated joins of the parent are lost
(`Filter.Call.separated`).
-/

namespace GraphIndex

open Numbered (InOrder)

/-! ### Joins of several filters -/

/-- Whether a join is that of the parent. -/
def Join.isParent (j : Join) : Bool := j.key? == some .parent

/-- Joins without the repetitions of the join of the parent. -/
def Join.parentOnce : List Join → List Join
  | [] => []
  | j :: js => j :: if j.isParent then js.filter (!·.isParent) else parentOnce js

namespace Join

theorem any_parentOnce (js : List Join) : (parentOnce js).any isParent = js.any isParent := by
  induction js with
  | nil => rfl
  | cons j js ih =>
    rw [parentOnce, List.any_cons, List.any_cons]
    cases hj : j.isParent with
    | true => rfl
    | false =>
      rw [if_neg Bool.false_ne_true, ih]

theorem parentOnce_append (js ks : List Join) : parentOnce (js ++ ks)
    = parentOnce js ++ if js.any isParent then ks.filter (!·.isParent) else parentOnce ks := by
  induction js with
  | nil => rfl
  | cons j js ih =>
    rw [List.cons_append, parentOnce, parentOnce, List.any_cons, List.cons_append]
    cases hj : j.isParent with
    | true =>
      rw [if_pos rfl, if_pos rfl, Bool.true_or, if_pos rfl, List.filter_append]
    | false =>
      rw [if_neg Bool.false_ne_true, if_neg Bool.false_ne_true, Bool.false_or, ih]

/-- Joins of different keys have the join of the parent once. -/
theorem parentOnce_of_nodup {js : List Join} (h : (js.map key?).Nodup) : parentOnce js = js := by
  induction js with
  | nil => rfl
  | cons j js ih =>
    rw [List.map_cons, List.nodup_cons] at h
    rw [parentOnce, ih h.2]
    by_cases hj : j.isParent = true
    · -- A later join of the parent would have the same key.
      have hothers : js.filter (!·.isParent) = js := by
        refine List.filter_eq_self.mpr fun j' hj' => ?_
        rw [Bool.not_eq_true', Bool.eq_false_iff]
        intro hparent
        exact h.1 (((beq_iff_eq.mp hj).trans (beq_iff_eq.mp hparent).symm) ▸
          List.mem_map_of_mem hj')
      rw [hothers, ite_self]
    · rw [if_neg hj]

end Join

namespace JoinSet

/-- The joins of filters, added one after the other. -/
def unionAll (fs : List Filter) : JoinSet := fs.foldl (fun s f => s.union f.joins) empty

theorem distinct_unionAll (fs : List Filter) : (unionAll fs).Distinct := by
  have hfold : ∀ (fs : List Filter) {s : JoinSet}, s.Distinct →
      (fs.foldl (fun s f => s.union f.joins) s).Distinct := by
    intro fs
    induction fs with
    | nil => exact fun hs => hs
    | cons f fs ih => exact fun hs => ih (distinct_insertAll hs f.joins.joins)
  have hempty : empty.Distinct := List.nodup_nil
  exact hfold fs hempty

variable {stem : String} {lo n k : Nat} {s : JoinSet} {f : Filter}

/-- Of the keys of joins with later numbers only that of the parent can be there already. -/
theorem contains_eq_isParent (hs : ∀ j ∈ s.joins, FilterJoin stem lo n j) {j : Join}
    (hj : FilterJoin stem n k j) :
    s.contains j.key? = (j.isParent && s.joins.any Join.isParent) := by
  rw [Bool.eq_iff_iff, Bool.and_eq_true, contains_iff, List.any_eq_true]
  constructor
  · rintro ⟨j', hj', hkey⟩
    obtain ⟨rfl, rfl⟩ := (hs j' hj').eq_parentJoin_of_key_eq hj hkey
    exact ⟨rfl, parentJoin, hj', rfl⟩
  · rintro ⟨hparent, j', hj', hparent'⟩
    exact ⟨j', hj', (beq_iff_eq.mp hparent').trans (beq_iff_eq.mp hparent).symm⟩

/-- Adding the joins of a filter with later numbers loses no join but a second one of the parent. -/
theorem joins_union_of_drawn {js : List Join} (hs : ∀ j ∈ s.joins, FilterJoin stem lo n j)
    (hjs : s.joins = Join.parentOnce js) (hf : Filter.Drawn stem n k f) :
    (s.union f.joins).joins = Join.parentOnce (js ++ f.joins.joins) := by
  have hcontains : ∀ j ∈ f.joins.joins,
      (!s.contains j.key?) = !(j.isParent && js.any Join.isParent) := by
    intro j hj
    rw [contains_eq_isParent hs (hf.joins j hj), hjs, Join.any_parentOnce]
  rw [union, joins_insertAll_of_nodup hf.distinct, List.filter_congr hcontains, hjs,
    Join.parentOnce_append, Join.parentOnce_of_nodup hf.distinct]
  cases js.any Join.isParent with
  | true => simp only [Bool.and_true, if_pos]
  | false =>
    simp only [Bool.and_false, Bool.not_false, List.filter_true, if_neg Bool.false_ne_true]

end JoinSet

namespace Filter

/-- A call that compiles conditions: one entry, or entries that must all hold. -/
inductive Call where
  | one (e : Entry)
  | all (es : List Entry)
  deriving Repr

namespace Call

/-- The answer to a call with numbers from `next` on, and the next free number. -/
def run (stem : String) (next : Nat) : Call → Except Fault Filter × Nat
  | one e => ofEntry stem e next
  | all es => ofEntriesFrom stem es next

/-- The aliases that are handed out for a call. -/
def handed (stem : String) (next : Nat) : Call → List Alias
  | one e => e.handed stem false next
  | all es => Entry.handedAll stem false next es

/-- The answers to calls, each of which takes its numbers from where the one before it stopped, and
the next free number. -/
def runAll (stem : String) (next : Nat) : List Call → List (Except Fault Filter) × Nat
  | [] => ([], next)
  | c :: rest =>
    let (result, next) := c.run stem next
    let (results, next) := runAll stem next rest
    (result :: results, next)

/-- The aliases that are handed out for calls, in their order. -/
def handedAll (stem : String) (next : Nat) : List Call → List Alias
  | [] => []
  | c :: rest => c.handed stem next ++ handedAll stem (c.run stem next).2 rest

/-- The filters of the calls that did not fail. -/
def filters (stem : String) (next : Nat) (cs : List Call) : List Filter :=
  (runAll stem next cs).1.filterMap Except.toOption

/-! ### One call -/

variable {stem : String} {n : Nat}

/-- A call takes as many numbers as aliases are handed out, also if it fails. -/
theorem next_eq (c : Call) (n : Nat) :
    (c.run stem n).2 = n + (c.handed stem n).length := by
  cases c with
  | one e => exact e.next_eq false n
  | all es =>
    rw [run, ofEntriesFrom, run_map]
    exact Entry.nextAll_eq (fun e _ => e.next_eq) false n

theorem inOrder_handed (c : Call) (n : Nat) : InOrder n (c.handed stem n) := by
  cases c with
  | one e => exact e.inOrder_handed false n
  | all es => exact Entry.inOrder_handedAll (fun e _ => e.inOrder_handed) false n

/-- The filter of a call has the numbers of the call, and declares the aliases handed out for it. -/
theorem drawn_of_run {c : Call} {f : Filter} {k : Nat} (h : c.run stem n = (.ok f, k)) :
    Drawn stem n k f ∧ f.numbered.Perm (c.handed stem n) := by
  cases c with
  | one e => exact ⟨e.drawn_of_yields h, e.perm_handed h⟩
  | all es =>
    obtain ⟨fs, hfs, rfl⟩ := yields_map.mp h
    exact ⟨Entry.drawn_all (fun e _ => e.drawn_of_yields) hfs,
      Entry.perm_handedAll (fun e _ => e.perm_handed) hfs⟩

/-! ### Many calls -/

theorem nextAll_eq (cs : List Call) (n : Nat) :
    (runAll stem n cs).2 = n + (handedAll stem n cs).length := by
  induction cs generalizing n with
  | nil => rfl
  | cons c cs ih =>
    show (runAll stem (c.run stem n).2 cs).2 = _
    rw [ih, handedAll, List.length_append, c.next_eq]
    omega

theorem inOrder_handedAll (cs : List Call) (n : Nat) : InOrder n (handedAll stem n cs) := by
  induction cs generalizing n with
  | nil => exact .nil n
  | cons c cs ih =>
    rw [handedAll]
    refine (c.inOrder_handed n).append ?_
    rw [← c.next_eq]
    exact ih _

theorem filters_cons_of_ok {c : Call} {f : Filter} {k : Nat} (h : c.run stem n = (.ok f, k))
    (cs : List Call) : filters stem n (c :: cs) = f :: filters stem k cs := by
  unfold filters
  rw [runAll, h]
  rfl

theorem filters_cons_of_error {c : Call} {fault : Fault} {k : Nat}
    (h : c.run stem n = (.error fault, k)) (cs : List Call) :
    filters stem n (c :: cs) = filters stem k cs := by
  unfold filters
  rw [runAll, h]
  rfl

/-- Every alias that some filter declares was handed out, and for one filter only. -/
theorem subperm_numbered (cs : List Call) (n : Nat) :
    List.Subperm ((filters stem n cs).flatMap numbered) (handedAll stem n cs) := by
  induction cs generalizing n with
  | nil => exact List.Subperm.refl _
  | cons c cs ih =>
    rcases hrun : c.run stem n with ⟨fault | f, k⟩
    · -- What a failed call handed out is lost.
      rw [filters_cons_of_error hrun, handedAll, hrun]
      exact (ih k).trans (List.sublist_append_right _ _).subperm
    · rw [filters_cons_of_ok hrun, List.flatMap_cons, handedAll, hrun]
      exact (drawn_of_run hrun).2.subperm.append (ih k)

/-- The joins of the filters of calls stay in their order, but for repeated joins of the parent. -/
theorem joins_unionAll (cs : List Call) (n : Nat) : (JoinSet.unionAll (filters stem n cs)).joins
    = Join.parentOnce ((filters stem n cs).flatMap fun f => f.joins.joins) := by
  -- The set made so far and the joins that went into it vary along the calls.
  have hfold : ∀ (cs : List Call) {n : Nat} {s : JoinSet} {js : List Join},
      (∀ j ∈ s.joins, FilterJoin stem 0 n j) → s.joins = Join.parentOnce js →
      ((filters stem n cs).foldl (fun s f => s.union f.joins) s).joins
        = Join.parentOnce (js ++ (filters stem n cs).flatMap fun f => f.joins.joins) := by
    intro cs
    induction cs with
    | nil =>
      intro n s js _ hjs
      rw [filters, runAll, List.filterMap_nil, List.flatMap_nil, List.append_nil]
      exact hjs
    | cons c cs ih =>
      intro n s js hs hjs
      have hnext : (c.run stem n).2 = n + (c.handed stem n).length := c.next_eq n
      rcases hrun : c.run stem n with ⟨fault | f, k⟩
      · rw [hrun] at hnext
        have hle : n ≤ k := le_of_le_of_eq (Nat.le_add_right _ _) hnext.symm
        rw [filters_cons_of_error hrun]
        exact ih (fun j hj => (hs j hj).mono le_rfl hle) hjs
      · have hdrawn : Drawn stem n k f := (drawn_of_run hrun).1
        rw [filters_cons_of_ok hrun, List.foldl_cons, List.flatMap_cons, ← List.append_assoc]
        refine ih (fun j hj => ?_) (JoinSet.joins_union_of_drawn hs hjs hdrawn)
        have hsep : JoinSet.Separate s f.joins.joins := by
          intro j₁ hj₁ j₂ hj₂ hkey
          rcases List.mem_append.mp hj₂ with hj₂ | hj₂
          · obtain ⟨h₁, h₂⟩ := (hs j₂ hj₂).eq_parentJoin_of_key_eq (hdrawn.joins j₁ hj₁) hkey.symm
            rw [h₁, h₂]
          · exact hdrawn.distinct.eq_of_key_eq hj₁ hj₂ hkey
        rcases (JoinSet.mem_insertAll_iff hsep j).mp hj with hj | hj
        · exact (hs j hj).mono le_rfl hdrawn.le
        · exact (hdrawn.joins j hj).mono (Nat.zero_le _) le_rfl
  have hempty : ∀ j ∈ JoinSet.empty.joins, FilterJoin stem 0 n j :=
    fun j hj => absurd hj List.not_mem_nil
  have hnil : JoinSet.empty.joins = Join.parentOnce [] := rfl
  exact hfold cs hempty hnil

theorem isStandard_of_mem_handedAll (cs : List Call) (n : Nat) :
    ∀ a ∈ handedAll defaultStem n cs, a.IsStandard := by
  induction cs generalizing n with
  | nil => exact fun a ha => absurd ha List.not_mem_nil
  | cons c cs ih =>
    rw [handedAll, List.forall_mem_append]
    refine ⟨?_, ih _⟩
    cases c with
    | one e => exact e.isStandard_of_mem_handed false n
    | all es =>
      exact Entry.isStandard_of_mem_handedAll (fun e _ => e.isStandard_of_mem_handed) false n

/-- What the calls of one run have to do with each other. -/
structure Separated (cs : List Call) : Prop where
  /-- No text is handed out twice as an alias, by calls that fail included. -/
  names : ((handedAll defaultStem 0 cs).map Alias.name).Nodup
  /-- The numbers are those before the next free one. -/
  numbers : (handedAll defaultStem 0 cs).map Alias.serial?
    = (List.range (runAll defaultStem 0 cs).2).map some
  /-- The filters declare only aliases that were handed out, and no alias twice. -/
  declared : List.Subperm ((filters defaultStem 0 cs).flatMap numbered)
    (handedAll defaultStem 0 cs)
  /-- All joins are kept in their order, but for repeated joins of the parent. -/
  joins : (JoinSet.unionAll (filters defaultStem 0 cs)).joins
    = Join.parentOnce ((filters defaultStem 0 cs).flatMap fun f => f.joins.joins)
  keys : (JoinSet.unionAll (filters defaultStem 0 cs)).Distinct
  contains_iff : ∀ key, (JoinSet.unionAll (filters defaultStem 0 cs)).contains key = true ↔
    key ∈ (JoinSet.unionAll (filters defaultStem 0 cs)).joins.map Join.key?

/-- **Calls of one run** hand out different aliases, and of the joins of their filters no join is
lost but repeated joins of the parent. -/
theorem separated (cs : List Call) : Separated cs where
  names := by
    have hnodup : (handedAll defaultStem 0 cs).Nodup := (inOrder_handedAll cs 0).nodup
    exact Alias.nodup_names (isStandard_of_mem_handedAll cs 0) hnodup
  numbers := by
    have hnext : (runAll defaultStem 0 cs).2 = (handedAll defaultStem 0 cs).length := by
      rw [nextAll_eq]
      omega
    rw [hnext, List.range_eq_range']
    exact inOrder_handedAll cs 0
  declared := subperm_numbered cs 0
  joins := joins_unionAll cs 0
  keys := JoinSet.distinct_unionAll _
  contains_iff := by
    intro key
    rw [JoinSet.contains_iff, List.mem_map]

end Call

end Filter

end GraphIndex
