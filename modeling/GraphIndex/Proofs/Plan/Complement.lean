import GraphIndex.Proofs.Plan.Matching

/-!
# Negation and complement

The nodes that are selected for a tree of conditions and for its negation. Where no column of the
node is compared the truth of a tree is never unknown (`Entry.isSome_truth`), and what is true
outside of negations is true below them (`Entry.entails_truth`), so that no node is selected for
both (`Selection.not_mem_both`). The other way round the two forms of a condition on the tags of the
parent differ for a parent id that names no stored node: `Selection.complementary_iff` says for
which stores the two selections are complements of each other.
-/

namespace GraphIndex

/-! ### Clauses of a tree -/

namespace Entry

mutual

/-- The clauses of a tree, from left to right. -/
def clauses : Entry → List Clause
  | clause c => [c]
  | group _ members _ => allClauses members

/-- The clauses of the trees of a list. -/
def allClauses : List Entry → List Clause
  | [] => []
  | e :: rest => e.clauses ++ allClauses rest

end

theorem mem_allClauses {c : Clause} {es : List Entry} :
    c ∈ allClauses es ↔ ∃ e ∈ es, c ∈ e.clauses := by
  induction es with
  | nil => simp [allClauses]
  | cons e es ih => simp [allClauses, ih]

theorem forall_mem_allClauses {P : Clause → Prop} {es : List Entry} :
    (∀ c ∈ allClauses es, P c) ↔ ∀ e ∈ es, ∀ c ∈ e.clauses, P c := by
  simp only [mem_allClauses, forall_exists_index, and_imp]
  exact ⟨fun h e he c hc => h c e he hc, fun h c e he hc => h e he c hc⟩

theorem hasClause_iff (e : Entry) : e.hasClause = true ↔ e.clauses ≠ [] := by
  induction e using Entry.induction with
  | clause c => exact iff_of_true rfl (List.cons_ne_nil _ _)
  | group kind members negated ih =>
    have hany : ∀ es : List Entry, (∀ e ∈ es, (e.hasClause = true ↔ e.clauses ≠ [])) →
        (anyHasClause es = true ↔ allClauses es ≠ []) := by
      intro es
      induction es with
      | nil => exact fun _ => iff_of_false Bool.false_ne_true fun h => h rfl
      | cons e es ihes =>
        intro h
        rw [List.forall_mem_cons] at h
        rw [anyHasClause, allClauses, Bool.or_eq_true, h.1, ihes h.2]
        simp only [ne_eq, List.append_eq_nil_iff, not_and_or]
    exact hany members ih

end Entry

/-- A clause that compares no column of the node: it may only ask whether one is there. -/
def Clause.ComparesNoColumn (c : Clause) : Prop :=
  ∀ k, Route.ofField c.field = .ok (.column k) → c.operator.isExistenceTest = true

/-- A tree that holds a clause and compares no column of the node. -/
structure Entry.ComparesNoColumn (e : Entry) : Prop where
  clauses_ne_nil : e.clauses ≠ []
  clauses : ∀ c ∈ e.clauses, c.ComparesNoColumn

theorem Entry.ComparesNoColumn.negate {e : Entry} (h : e.ComparesNoColumn) :
    e.negate.ComparesNoColumn := by
  cases e with
  | clause c => exact ⟨List.cons_ne_nil _ _, fun d hd => by
      rw [List.mem_singleton.mp hd]
      exact h.clauses c (List.mem_singleton_self _)⟩
  | group kind members negated => exact ⟨h.clauses_ne_nil, h.clauses⟩

/-! ### Truth that is never unknown -/

namespace Clause

variable {c : Clause} {view : NodeView}

theorem isExistenceTest_effectiveOperator (c : Clause) :
    c.effectiveOperator.isExistenceTest = c.operator.isExistenceTest := by
  unfold effectiveOperator
  split <;> simp_all [Operator.isExistenceTest]

theorem isSome_columnTruth {affinity : Affinity} {v : Operand} {d : Datum} {op : Operator}
    (h : op.isExistenceTest = true) : (op.columnTruth affinity v d).isSome = true := by
  cases op with
  | compare _ => exact absurd h Bool.false_ne_true
  | contains => exact absurd h Bool.false_ne_true
  | present => rfl
  | missing => rfl

theorem isSome_positiveTruth (hroute : ∃ route, Route.ofField c.field = .ok route)
    (h : c.ComparesNoColumn) : (c.positiveTruth view).isSome = true := by
  obtain ⟨route, hroute⟩ := hroute
  cases route with
  | column k =>
    rw [positiveTruth_column hroute]
    exact isSome_columnTruth (by rw [isExistenceTest_effectiveOperator]; exact h k hroute)
  | parentName =>
    rw [positiveTruth_parentName hroute]
    split
    · exact isSome_columnTruth ‹_›
    · rfl
  | parentTags =>
    cases hop : c.effectiveOperator.isExistenceTest with
    | true => rw [positiveTruth_parentTags_of_test hroute hop, Option.isSome_some]
    | false => rw [positiveTruth_parentTags hroute hop, Option.isSome_some]
  | custom field =>
    cases hop : c.effectiveOperator.isExistenceTest with
    | true => rw [positiveTruth_custom_of_test hroute hop, Option.isSome_some]
    | false => rw [positiveTruth_custom hroute hop, Option.isSome_some]

theorem Becomes.exists_route {stem : String} {nested : Bool} {n k : Nat} {f : Filter}
    (h : c.Becomes stem nested n f k) : ∃ route, Route.ofField c.field = .ok route := by
  cases h <;> exact ⟨_, ‹_›⟩

end Clause

theorem isSome_negateIf (negated : Bool) (b : Option Bool) :
    (negateIf negated b).isSome = b.isSome := by
  cases negated with
  | true => exact Option.isSome_map
  | false => rfl

/-- The truth of a tree that compares no column of the node is not unknown. -/
theorem Entry.isSome_truth {stem : String} {view : NodeView} (e : Entry) : ∀ {nested n f k},
    Yields (e.filter stem nested) n f k → (∀ c ∈ e.clauses, c.ComparesNoColumn) →
      (e.truth view).isSome = true := by
  induction e using Entry.induction with
  | clause c =>
    intro nested n f k h hclauses
    obtain ⟨g, hg, -⟩ := yields_clause h
    rw [truth, Clause.truth, isSome_negateIf]
    exact Clause.isSome_positiveTruth hg.exists_route (hclauses c (List.mem_singleton_self _))
  | group kind members negated ih =>
    intro nested n f k h hclauses
    obtain ⟨fs, hfs, -⟩ := yields_group h
    rw [truth, isSome_negateIf]
    refine kind.isSome_fold fun b hb => ?_
    rw [truths_eq_flatMap] at hb
    obtain ⟨e, he, hbe⟩ := List.mem_flatMap.mp hb
    obtain ⟨_, _, _, hyields⟩ := exists_yields_of_mem hfs e he
    split at hbe
    · rw [List.mem_singleton.mp hbe]
      exact ih e he hyields fun c hc => hclauses c (mem_allClauses.mpr ⟨e, he, hc⟩)
    · exact absurd hbe List.not_mem_nil

/-! ### More is true below a negation -/

theorem Clause.entails_positiveTruth (store : Store) (r : NodeRow) (c : Clause) :
    Entails (c.positiveTruth (store.view r)) (c.positiveTruth (store.nestedView r)) := by
  by_cases hpath : Route.ofField c.field = .ok .parentTags →
      c.effectiveOperator.isExistenceTest = true
  · rw [positiveTruth_nestedView hpath]
    exact Entails.refl _
  · rw [Classical.not_imp, Bool.not_eq_true] at hpath
    rw [positiveTruth_parentTags hpath.1 hpath.2, positiveTruth_parentTags hpath.1 hpath.2]
    intro h
    rw [Option.some.injEq, List.any_eq_true] at h ⊢
    obtain ⟨s, hs, hholds⟩ := h
    refine ⟨s, ?_, hholds⟩
    -- The tags of a stored parent are entered under the id of the parent.
    rw [store.view_parentTags r] at hs
    show s ∈ store.tagsOf r.parentId
    cases hparent : store.parent? r with
    | none =>
      rw [hparent] at hs
      obtain ⟨t, -, ht, -⟩ := Store.mem_tagsOf.mp hs
      exact absurd ht (by simp)
    | some q =>
      rw [hparent, Option.bind_some, (Store.parent?_eq_some hparent).2.2] at hs
      exact hs

/-- What is true outside of negations is true for what conditions below them see. -/
theorem Entry.entails_truth (store : Store) (r : NodeRow) (e : Entry) :
    Entails (e.splitTruth (store.view r) (store.nestedView r)) (e.truth (store.nestedView r)) := by
  induction e using Entry.induction with
  | clause c =>
    by_cases hnegated : (Entry.clause c).isNegated = true
    · rw [splitTruth_of_isNegated _ _ hnegated]
      exact Entails.refl _
    · have hfalse : c.negated = false := eq_false_of_ne_true hnegated
      rw [splitTruth, truth, Clause.truth, Clause.truth, hfalse]
      exact c.entails_positiveTruth store r
  | group kind members negated ih =>
    by_cases hnegated : (Entry.group kind members negated).isNegated = true
    · rw [splitTruth_of_isNegated _ _ hnegated]
      exact Entails.refl _
    · have hfalse : negated = false := eq_false_of_ne_true hnegated
      -- Member by member, where those without a clause are left out on both sides.
      have hmembers : ∀ es : List Entry, (∀ e ∈ es, Entails
          (e.splitTruth (store.view r) (store.nestedView r)) (e.truth (store.nestedView r))) →
          List.Forall₂ Entails (splitTruths (store.view r) (store.nestedView r) es)
            (truths (store.nestedView r) es) := by
        intro es
        induction es with
        | nil => exact fun _ => List.Forall₂.nil
        | cons e es ihes =>
          intro h
          rw [List.forall_mem_cons] at h
          rw [splitTruths, truths]
          split
          · exact List.Forall₂.cons h.1 (ihes h.2)
          · exact ihes h.2
      rw [splitTruth, truth, hfalse]
      exact kind.fold_mono (hmembers members ih)

/-! ### Selections of a tree and of its negation -/

theorem Entry.truth_negate (view : NodeView) (e : Entry) :
    e.negate.truth view = (e.truth view).map (!·) := by
  have hnegate : ∀ (negated : Bool) (b : Option Bool),
      negateIf (!negated) b = (negateIf negated b).map (!·) := by
    intro negated b
    cases negated <;> rcases b with _ | _ | _ <;> rfl
  cases e with
  | clause c => exact hnegate c.negated _
  | group kind members negated => exact hnegate negated _

namespace Selection

variable {store : Store} {r : NodeRow} {find : String} {e : Entry} {s s' : Selection}

theorem exists_of_yields
    (h : ∀ i, ∃ f j, Yields (e.filter Filter.defaultStem false) i f j) :
    ∃ s, Selection.of find [e] = .ok s := by
  obtain ⟨fs, k, hfs⟩ := Entry.exists_yields_filters (List.forall_mem_singleton.mpr h) 0
  exact ⟨_, of_eq_ok_iff.mpr ⟨_, Filter.ofEntries_of_yields hfs, rfl⟩⟩

theorem exists_yields_of (h : Selection.of find [e] = .ok s) :
    ∃ i f j, Yields (e.filter Filter.defaultStem false) i f j := by
  obtain ⟨f, hf, -⟩ := of_eq_ok_iff.mp h
  obtain ⟨fs, k, hfs, -⟩ := Filter.yields_of_ofEntries hf
  exact Entry.exists_yields_of_mem hfs e (List.mem_singleton_self _)

/-- A tree that turns into a statement does so with its negation. -/
theorem exists_of_negate (h : Selection.of find [e] = .ok s) :
    ∃ s', Selection.of find [e.negate] = .ok s' := by
  obtain ⟨_, _, _, hyields⟩ := exists_yields_of h
  exact exists_of_yields fun i => (e.exists_yields hyields false i).2

/-- The nodes that are selected for one tree. -/
theorem mem_nodes_singleton (hkeyed : store.Keyed) (he : e.ComparesNoColumn)
    (h : Selection.of find [e] = .ok s) (r : NodeRow) :
    r ∈ s.nodes store ↔ r ∈ store.nodes ∧ store.isTarget r find = true ∧
      e.splitTruth (store.view r) (store.nestedView r) = some true := by
  rw [mem_nodes_iff hkeyed.uniqueIds h]
  rw [Entry.splitTruths, if_pos (e.hasClause_iff.mpr he.clauses_ne_nil), Entry.splitTruths,
    List.forall_mem_singleton]

theorem isSome_truth_of (he : e.ComparesNoColumn) (h : Selection.of find [e] = .ok s)
    (view : NodeView) : (e.truth view).isSome = true := by
  obtain ⟨_, _, _, hyields⟩ := exists_yields_of h
  exact e.isSome_truth hyields he.clauses

/-- **No node is selected for a tree and for its negation**, wherever parent ids and tags point. -/
theorem not_mem_both (hkeyed : store.Keyed) (he : e.ComparesNoColumn)
    (h : Selection.of find [e] = .ok s) (h' : Selection.of find [e.negate] = .ok s') (r : NodeRow) :
    ¬ (r ∈ s.nodes store ∧ r ∈ s'.nodes store) := by
  rintro ⟨hr, hr'⟩
  obtain ⟨-, -, htrue⟩ := (mem_nodes_singleton hkeyed he h r).mp hr
  obtain ⟨-, -, htrue'⟩ := (mem_nodes_singleton hkeyed he.negate h' r).mp hr'
  have htruth := e.entails_truth store r htrue
  have htruth' := e.negate.entails_truth store r htrue'
  rw [Entry.truth_negate, htruth] at htruth'
  exact absurd htruth' (by decide)

/-- A node of the target whose parent owns its tags is selected for a tree or for its negation. -/
theorem mem_or_mem (hkeyed : store.Keyed) (he : e.ComparesNoColumn)
    (h : Selection.of find [e] = .ok s) (h' : Selection.of find [e.negate] = .ok s')
    (hr : r ∈ store.nodes) (htarget : store.isTarget r find = true)
    (htags : store.OwnsParentTags r) : r ∈ s.nodes store ∨ r ∈ s'.nodes store := by
  rw [mem_nodes_singleton hkeyed he h, mem_nodes_singleton hkeyed he.negate h',
    htags.nestedView_eq hkeyed.uniqueIds, Entry.splitTruth_self, Entry.splitTruth_self,
    Entry.truth_negate]
  obtain ⟨b, hb⟩ := Option.isSome_iff_exists.mp (isSome_truth_of he h (store.view r))
  rw [hb]
  cases b with
  | true => exact Or.inl ⟨hr, htarget, rfl⟩
  | false => exact Or.inr ⟨hr, htarget, rfl⟩

theorem mem_nodes_nil (hkeyed : store.Keyed) (h : Selection.of find [] = .ok s) (r : NodeRow) :
    r ∈ s.nodes store ↔ r ∈ store.nodes ∧ store.isTarget r find = true := by
  rw [mem_nodes_iff hkeyed.uniqueIds h]
  refine and_congr_right fun _ => and_iff_left ?_
  exact fun t ht => absurd ht List.not_mem_nil

/-- The nodes that are selected for a tree and those for its negation have none in common and are
together all nodes of the target. -/
def Complementary (store : Store) (find : String) (e : Entry) : Prop :=
  ∀ s, Selection.of find [e] = .ok s → ∃ s' whole, Selection.of find [e.negate] = .ok s' ∧
    Selection.of find [] = .ok whole ∧ (∀ r, ¬ (r ∈ s.nodes store ∧ r ∈ s'.nodes store)) ∧
      ∀ r, r ∈ whole.nodes store ↔ r ∈ s.nodes store ∨ r ∈ s'.nodes store

/-- The condition that the parent carries a tag. -/
def parentTagged (tag : String) : Entry := .clause (.equalTo "parent.tags" (.text tag))

theorem route_parentTags : Route.ofField "parent.tags" = .ok .parentTags := rfl

theorem comparesNoColumn_parentTagged (tag : String) : (parentTagged tag).ComparesNoColumn := by
  refine ⟨List.cons_ne_nil _ _, fun c hc k hk => ?_⟩
  rw [List.mem_singleton.mp hc] at hk
  have hroute : (.ok .parentTags : Except RouteFault Route) = .ok (.column k) :=
    route_parentTags.symm.trans hk
  exact absurd hroute (by simp)

theorem exists_of_parentTagged (find tag : String) :
    ∃ s, Selection.of find [parentTagged tag] = .ok s := by
  refine exists_of_yields fun i => ?_
  have hbecomes : Clause.Becomes Filter.defaultStem (.equalTo "parent.tags" (.text tag)) false 0 _
      1 := .parentTag route_parentTags rfl rfl
  exact Entry.exists_yields_clause hbecomes false false i

theorem truth_parentTagged (view : NodeView) (tag : String) :
    (parentTagged tag).truth view = some (decide (tag ∈ view.parentTags)) := by
  have hpositive : (Clause.equalTo "parent.tags" (.text tag)).positiveTruth view
      = some (view.parentTags.any fun s => Comparison.equal.holds (Datum.textOrder s tag)) :=
    Clause.positiveTruth_parentTags route_parentTags rfl
  show (Clause.equalTo "parent.tags" (.text tag)).positiveTruth view = _
  rw [hpositive, Option.some.injEq, Bool.eq_iff_iff, List.any_eq_true, decide_eq_true_iff]
  simp only [Comparison.equal_holds_textOrder, exists_eq_right]

/-- A node whose parent id names no stored node but carries a tag is selected neither for this tag
of the parent nor for its negation. -/
theorem not_complementary {id tag : String} (hkeyed : store.Keyed) (hr : r ∈ store.nodes)
    (ht : (⟨id, tag⟩ : TagRow) ∈ store.tags) (hid : r.parentId = some id)
    (hnone : ∀ q ∈ store.nodes, q.id ≠ some id) :
    ¬ Complementary store anyNode (parentTagged tag) := by
  intro h
  have he := comparesNoColumn_parentTagged tag
  obtain ⟨s, hs⟩ := exists_of_parentTagged anyNode tag
  obtain ⟨s', whole, hs', hwhole, -, hunion⟩ := h s hs
  -- The node belongs to the whole, but to neither part: for the joined condition its parent is
  -- missing, for the nested one the tag is there.
  have hmem := (mem_nodes_nil hkeyed hwhole r).mpr ⟨hr, rfl⟩
  rcases (hunion r).mp hmem with hr | hr
  · have hparent : store.parent? r = none := by
      cases hq : store.parent? r with
      | none => rfl
      | some q =>
        obtain ⟨hmem, -, hqid⟩ := Store.parent?_eq_some hq
        exact absurd (hqid.trans hid) (hnone q hmem)
    obtain ⟨-, -, htrue⟩ := (mem_nodes_singleton hkeyed he hs r).mp hr
    have htruth : (parentTagged tag).truth (store.view r) = some true := htrue
    have hnil : (store.view r).parentTags = [] := by
      show ((store.parent? r).map fun q => store.tagsOf q.id).getD [] = []
      rw [hparent]
      rfl
    rw [truth_parentTagged, hnil] at htruth
    exact absurd htruth (by simp)
  · obtain ⟨-, -, htrue⟩ := (mem_nodes_singleton hkeyed he.negate hs' r).mp hr
    have htruth : (parentTagged tag).negate.truth (store.nestedView r) = some true := htrue
    have htag : tag ∈ (store.nestedView r).parentTags :=
      Store.mem_tagsOf.mpr ⟨_, ht, hid, rfl⟩
    rw [Entry.truth_negate, truth_parentTagged, decide_eq_true htag] at htruth
    exact absurd htruth (by decide)

/-- **When negation is the complement**: for every target and every tree that compares no column of
the node, if and only if no node has a parent id that carries tags but names no stored node. -/
theorem complementary_iff (hkeyed : store.Keyed) :
    (∀ find e, e.ComparesNoColumn → Complementary store find e) ↔
      ∀ r ∈ store.nodes, store.OwnsParentTags r := by
  constructor
  · intro h r hr t ht hid
    -- A tag under an id without a node is a tree for which the two selections are none.
    by_contra hnone
    rw [not_exists] at hnone
    exact not_complementary hkeyed hr ht hid (fun q hq hqid => hnone q ⟨hq, hqid⟩)
      (h _ _ (comparesNoColumn_parentTagged t.tag))
  · intro htags find e he s hs
    obtain ⟨s', hs'⟩ := exists_of_negate hs
    refine ⟨s', _, hs', rfl, not_mem_both hkeyed he hs hs', fun r => ?_⟩
    rw [mem_nodes_nil hkeyed rfl]
    constructor
    · rintro ⟨hr, htarget⟩
      exact mem_or_mem hkeyed he hs hs' hr htarget (htags r hr)
    · rintro (hr | hr)
      · obtain ⟨hmem, htarget, -⟩ := (mem_nodes_singleton hkeyed he hs r).mp hr
        exact ⟨hmem, htarget⟩
      · obtain ⟨hmem, htarget, -⟩ := (mem_nodes_singleton hkeyed he.negate hs' r).mp hr
        exact ⟨hmem, htarget⟩

/-- In the sample negation is the complement: the draft has a parent with the tag, the parent has no
parent itself. -/
theorem complementary_sample : sampleStore.Keyed ∧
    Complementary sampleStore anyNode (parentTagged "urgent") := by
  have hiff := complementary_iff keyed_sampleStore
  have hall := hiff.mpr fun r _ => ownsTags_sampleStore.parentTags r
  exact ⟨keyed_sampleStore, hall anyNode _ (comparesNoColumn_parentTagged "urgent")⟩

/-- A node whose parent was never entered. -/
def strayNode : NodeRow := ⟨"n1", "Draft", "p1", none, .integer 1, .null, .null⟩

/-- A node whose parent was never entered, and a tag of this parent. -/
def strayStore : Store := ⟨[strayNode], [⟨"p1", "urgent"⟩], []⟩

/-- Neither the tag of a parent that was never entered nor its negation selects the node. -/
theorem not_complementary_stray : strayStore.Keyed ∧ (parentTagged "urgent").ComparesNoColumn ∧
    ¬ Complementary strayStore anyNode (parentTagged "urgent") := by
  have hkeyed : strayStore.Keyed := ⟨by decide, by decide⟩
  have hnode : strayNode ∈ strayStore.nodes := List.mem_singleton_self _
  have htag : (⟨"p1", "urgent"⟩ : TagRow) ∈ strayStore.tags := List.mem_singleton_self _
  have hnone : ∀ q ∈ strayStore.nodes, q.id ≠ some "p1" := by decide
  refine ⟨hkeyed, comparesNoColumn_parentTagged "urgent", ?_⟩
  exact not_complementary hkeyed hnode htag rfl hnone

end Selection

end GraphIndex
