import GraphIndex.Proofs.Plan.Clauses

/-!
# What the filters of trees say of a node

`Entry.splitTruth view nested` is the truth of a tree whose clauses outside of negations see `view`
and whose clauses below a negation see `nested`. The filter of a tree means this truth for what the
two forms of its clauses see of a node (`Entry.means_of_yields`), and so does the filter of a whole
list of conditions (`Filter.means_of_ofEntries`).
-/

namespace GraphIndex

/-! ### Trees that see a node in two ways -/

namespace Entry

mutual

/-- The truth of a tree whose clauses below a negation see a view of their own. -/
def splitTruth (view nested : NodeView) : Entry → Option Bool
  | clause c => c.truth (if c.negated then nested else view)
  | group kind members negated =>
    if negated then negateIf true (kind.fold (truths nested members))
    else kind.fold (splitTruths view nested members)

/-- The truths of those trees of a list that hold a clause. -/
def splitTruths (view nested : NodeView) : List Entry → List (Option Bool)
  | [] => []
  | e :: rest =>
    if e.hasClause then e.splitTruth view nested :: splitTruths view nested rest
    else splitTruths view nested rest

end

variable (view nested : NodeView)

theorem splitTruths_eq_flatMap (es : List Entry) :
    splitTruths view nested es
      = es.flatMap fun e => if e.hasClause then [e.splitTruth view nested] else [] := by
  induction es with
  | nil => rfl
  | cons e es ih =>
    rw [List.flatMap_cons, splitTruths, ih]
    cases e.hasClause <;> rfl

theorem splitTruths_append (es es' : List Entry) :
    splitTruths view nested (es ++ es')
      = splitTruths view nested es ++ splitTruths view nested es' := by
  simp only [splitTruths_eq_flatMap, List.flatMap_append]

theorem isEmpty_splitTruths (es : List Entry) :
    (splitTruths view nested es).isEmpty = !anyHasClause es := by
  induction es with
  | nil => rfl
  | cons e es ih =>
    rw [splitTruths, anyHasClause]
    cases e.hasClause with
    | true => rfl
    | false => exact ih

/-- Where both views are one, the truth is that of the tree. -/
theorem splitTruth_self (e : Entry) : e.splitTruth view view = e.truth view := by
  induction e using Entry.induction with
  | clause c =>
    rw [splitTruth, truth, ite_self]
  | group kind members negated ih =>
    have hmembers : splitTruths view view members = truths view members := by
      rw [splitTruths_eq_flatMap, truths_eq_flatMap]
      refine List.flatMap_congr fun e he => ?_
      rw [ih e he]
    rw [splitTruth, truth, hmembers]
    cases negated <;> rfl

theorem splitTruths_self (es : List Entry) : splitTruths view view es = truths view es := by
  simp only [splitTruths_eq_flatMap, truths_eq_flatMap, splitTruth_self]

end Entry

/-! ### Filters of trees -/

namespace Entry

variable {store : Store} {r : NodeRow} {stem : String}

theorem groupTruths_splitTruths (view nested : NodeView) (kind : Connective) (es : List Entry) :
    kind.groupTruths (splitTruths view nested es)
      = if anyHasClause es then [kind.fold (splitTruths view nested es)] else [] := by
  rw [Connective.groupTruths, isEmpty_splitTruths]
  cases anyHasClause es <;> rfl

theorem groupTruths_truths (view : NodeView) (kind : Connective) (es : List Entry) :
    kind.groupTruths (truths view es)
      = if anyHasClause es then [kind.fold (truths view es)] else [] := by
  rw [← splitTruths_self, groupTruths_splitTruths]

/-- **Below a negation** the filter of a tree has the truth of the tree. -/
theorem exact_of_yields (hids : store.UniqueIds) (e : Entry) : ∀ {n k f},
    Yields (e.filter stem true) n f k →
      f.Exact store r (if e.hasClause then [e.truth (store.nestedView r)] else []) := by
  induction e using Entry.induction with
  | clause c =>
    intro n k f h
    obtain ⟨g, hg, rfl⟩ := yields_clause h
    have hexact : g.Exact store r [c.positiveTruth (store.nestedView r)] := hg.exact hids
    show Filter.Exact store r _ [negateIf c.negated (c.positiveTruth _)]
    cases c.negated with
    | true => exact hexact.negated
    | false => exact hexact
  | group kind members negated ih =>
    intro n k f h
    obtain ⟨fs, hfs, rfl⟩ := yields_group h
    rw [Bool.true_or] at hfs
    have hall := all_of_yields_of_drawn (fun f ts => f.Exact store r ts) _
      (Filter.exact_none store r) Filter.Exact.and ih hfs
    have hgroup := hall.grouped kind
    rw [← truths_eq_flatMap, groupTruths_truths] at hgroup
    rw [truth, hasClause]
    -- A group without clauses stays without a condition, negated or not.
    cases negated with
    | true =>
      have hnegated := hgroup.negated
      cases hclause : anyHasClause members with
      | true =>
        rw [hclause] at hnegated
        exact hnegated
      | false =>
        rw [hclause] at hnegated
        exact hnegated
    | false => exact hgroup

/-- A negated tree has the same filter below a negation and outside of negations. -/
theorem filter_of_isNegated {e : Entry} (h : e.isNegated = true) :
    e.filter stem false = e.filter stem true := by
  cases e with
  | clause c =>
    have hc : c.negated = true := h
    rw [filter, filter, Clause.filter, Clause.filter, hc]
    rfl
  | group kind members negated =>
    have hnegated : negated = true := h
    rw [filter, filter, hnegated]
    rfl

theorem splitTruth_of_isNegated (view nested : NodeView) {e : Entry} (h : e.isNegated = true) :
    e.splitTruth view nested = e.truth nested := by
  cases e with
  | clause c =>
    have hc : c.negated = true := h
    rw [splitTruth, truth, if_pos hc]
  | group kind members negated =>
    have hnegated : negated = true := h
    rw [splitTruth, truth, if_pos hnegated, hnegated]

theorem means_all {es : List Entry} {n k : Nat} {fs : List Filter}
    (hes : ∀ e ∈ es, ∀ {n k f}, Yields (e.filter stem false) n f k → f.Means store r
      (if e.hasClause then [e.splitTruth (store.view r) (store.nestedView r)] else []))
    (h : Yields (filters stem false es) n fs k) :
    (Filter.all fs).Means store r (splitTruths (store.view r) (store.nestedView r) es) := by
  rw [splitTruths_eq_flatMap]
  exact all_of_yields_of_drawn (fun f ts => f.Means store r ts) _
    (Filter.exact_none store r).means Filter.Means.and hes h

/-- **Outside of negations** the filter of a tree means the truth of the tree. -/
theorem means_of_yields (hids : store.UniqueIds) (e : Entry) : ∀ {n k f},
    Yields (e.filter stem false) n f k → f.Means store r
      (if e.hasClause then [e.splitTruth (store.view r) (store.nestedView r)] else []) := by
  induction e using Entry.induction with
  | clause c =>
    intro n k f h
    by_cases hnegated : (Entry.clause c).isNegated = true
    · rw [splitTruth_of_isNegated _ _ hnegated]
      rw [filter_of_isNegated hnegated] at h
      exact (exact_of_yields hids _ h).means
    · have hfalse : c.negated = false := eq_false_of_ne_true hnegated
      obtain ⟨g, hg, rfl⟩ := yields_clause h
      rw [hfalse] at hg
      rw [splitTruth, Clause.truth, hfalse]
      exact hg.means hids
  | group kind members negated ih =>
    intro n k f h
    -- The induction hypothesis is for members outside of negations only.
    by_cases hnegated : (Entry.group kind members negated).isNegated = true
    · rw [splitTruth_of_isNegated _ _ hnegated]
      rw [filter_of_isNegated hnegated] at h
      exact (exact_of_yields hids _ h).means
    · have hfalse : negated = false := eq_false_of_ne_true hnegated
      obtain ⟨fs, hfs, rfl⟩ := yields_group h
      rw [hfalse] at hfs
      have hall := means_all ih hfs
      rw [hfalse, hasClause, splitTruth, if_neg Bool.false_ne_true, if_neg Bool.false_ne_true,
        ← groupTruths_splitTruths]
      exact hall.grouped kind

end Entry

namespace Filter

variable {store : Store} {r : NodeRow}

/-- **The filter of conditions** means their truth. -/
theorem means_of_ofEntries (hids : store.UniqueIds) {es : List Entry} {f : Filter}
    (h : ofEntries es = .ok f) :
    f.Means store r (Entry.splitTruths (store.view r) (store.nestedView r) es) := by
  obtain ⟨fs, k, hfs, rfl⟩ := yields_of_ofEntries h
  exact Entry.means_all (fun e _ => e.means_of_yields hids) hfs

end Filter

end GraphIndex
