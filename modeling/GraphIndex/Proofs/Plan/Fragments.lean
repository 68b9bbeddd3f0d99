import GraphIndex.Proofs.Plan.ClosedConditions

/-!
# Fragments of conditions are never read apart

`Entry.tree` is the tree that the condition of an entry is built as: the conditions of its clauses,
joined and negated as the entry says. The text of the condition is read as this tree
(`Filter.KeepsTogether`), and so are the texts that are joined, negated or put between parentheses
(`Filter.fragments_keep_together`), although all of this is done with texts alone.
-/

namespace GraphIndex

open Piece

/-- A reading, negated or not. -/
def Reading.negateIf (negated : Bool) (r : Reading) : Reading := if negated then .not r else r

namespace Entry

mutual

/-- The tree that the condition of an entry is built as, its leaves being what the conditions of
clauses are meant as; none if the entry holds no clause. The numbers are given out as for the
condition itself. -/
def tree (stem : String) (nested : Bool) : Entry → Numbered (List Reading)
  | clause c => do
    let f ← c.positiveFilter stem (nested || c.negated)
    return (Condition.readings f.conditions).map (.negateIf c.negated)
  | group kind members negated => do
    let rs ← trees stem (nested || negated) members
    return if rs.isEmpty then [] else [.negateIf negated (.join kind rs)]

/-- The trees of entries, from left to right. -/
def trees (stem : String) (nested : Bool) : List Entry → Numbered (List Reading)
  | [] => return []
  | e :: rest => do
    let rs ← e.tree stem nested
    let more ← trees stem nested rest
    return rs ++ more

end

end Entry

namespace Filter

variable {f : Filter} {fs : List Filter} {kind : Connective}

/-! ### Closed conditions -/

/-- The conditions of a filter are closed. -/
def IsClosed (f : Filter) : Prop := ∀ c ∈ f.conditions, c.IsClosed

theorem IsClosed.negated (h : f.IsClosed) : f.negated.IsClosed := by
  intro c hc
  obtain ⟨d, hd, rfl⟩ := List.mem_map.mp hc
  exact Condition.isClosed_not (h d hd)

theorem IsClosed.grouped (h : f.IsClosed) (kind : Connective) : (f.grouped kind).IsClosed := by
  unfold IsClosed
  rw [conditions_grouped]
  split
  · exact fun c hc => absurd hc List.not_mem_nil
  · next hne =>
    rw [List.isEmpty_iff] at hne
    exact List.forall_mem_singleton.mpr (Condition.isClosed_group hne h kind)

theorem IsClosed.all (h : ∀ f ∈ fs, f.IsClosed) : (all fs).IsClosed := by
  intro c hc
  rw [conditions_all, List.mem_flatMap] at hc
  obtain ⟨f, hf, hc⟩ := hc
  exact h f hf c hc

theorem length_conditions_grouped (kind : Connective) (f : Filter) :
    (f.grouped kind).conditions.length ≤ 1 := by
  rw [conditions_grouped]
  split
  · exact Nat.zero_le 1
  · exact le_rfl

theorem length_conditions_negated (f : Filter) :
    f.negated.conditions.length = f.conditions.length := List.length_map _

end Filter

/-! ### Conditions of entries -/

namespace Entry

open Condition (readings readings_eq_map)

variable {stem : String} {nested : Bool} {n k : Nat}

theorem forall_of_yields {P : Filter → Prop} {es : List Entry}
    (hes : ∀ e ∈ es, ∀ {n k f}, Yields (e.filter stem nested) n f k → P f) {fs : List Filter}
    (h : Yields (filters stem nested es) n fs k) : ∀ f ∈ fs, P f := by
  induction es generalizing n fs with
  | nil =>
    obtain ⟨rfl, -⟩ := yields_nil h
    exact fun f hf => absurd hf List.not_mem_nil
  | cons e es ih =>
    obtain ⟨f, gs, i, hf, hgs, rfl⟩ := yields_cons h
    rw [List.forall_mem_cons] at hes
    exact List.forall_mem_cons.mpr ⟨hes.1 hf, ih hes.2 hgs⟩

/-- An entry turns into no more than one condition, and this is closed. -/
theorem isClosed_of_yields (hstem : ∀ c ∈ stem.toList, isWordChar c = true) (e : Entry) :
    ∀ {nested n k f}, Yields (e.filter stem nested) n f k →
      f.IsClosed ∧ f.conditions.length ≤ 1 := by
  refine filter_induction (P := fun _ _ f => f.IsClosed ∧ f.conditions.length ≤ 1)
    ?clause ?negated ?group e
  case clause =>
    intro c nested n k g hg
    obtain ⟨d, hd, hclosed⟩ := hg.isClosed hstem
    rw [Filter.IsClosed, hd]
    exact ⟨List.forall_mem_singleton.mpr hclosed, le_rfl⟩
  case negated =>
    rintro n k g ⟨hclosed, hlength⟩
    exact ⟨hclosed.negated, g.length_conditions_negated.trans_le hlength⟩
  case group =>
    intro es nested n k fs kind hes hfs
    have hall : (Filter.all fs).IsClosed :=
      Filter.IsClosed.all (forall_of_yields (fun e he _ _ _ h => (hes e he h).1) hfs)
    exact ⟨hall.grouped kind, Filter.length_conditions_grouped kind _⟩

theorem readings_negated (f : Filter) :
    readings f.negated.conditions = (readings f.conditions).map .not := by
  rw [readings_eq_map, readings_eq_map, Filter.negated, List.map_map, List.map_map]
  rfl

theorem trees_of_yields {es : List Entry}
    (hes : ∀ e ∈ es, ∀ {n k f}, Yields (e.filter stem nested) n f k →
      Yields (e.tree stem nested) n (readings f.conditions) k)
    {fs : List Filter} (h : Yields (filters stem nested es) n fs k) :
    Yields (trees stem nested es) n (readings (Filter.all fs).conditions) k := by
  rw [Filter.conditions_all]
  induction es generalizing n fs with
  | nil =>
    obtain ⟨rfl, rfl⟩ := yields_nil h
    rw [trees]
    exact yields_pure.mpr ⟨rfl, rfl⟩
  | cons e es ih =>
    obtain ⟨f, gs, i, hf, hgs, rfl⟩ := yields_cons h
    rw [List.forall_mem_cons] at hes
    rw [trees]
    refine yields_bind.mpr ⟨_, i, hes.1 hf, yields_bind.mpr ⟨_, k, ih hes.2 hgs, ?_⟩⟩
    simp only [yields_pure, readings_eq_map, List.flatMap_cons, List.map_append, and_self]

/-- An entry turns into the conditions of its tree. -/
theorem tree_of_yields (e : Entry) : ∀ {nested n k f}, Yields (e.filter stem nested) n f k →
    Yields (e.tree stem nested) n (readings f.conditions) k := by
  induction e using Entry.induction with
  | clause c =>
    intro nested n k f h
    obtain ⟨g, hg, rfl⟩ := yields_clause h
    rw [tree]
    refine yields_bind.mpr ⟨g, k, hg.yields, yields_pure.mpr ⟨?_, rfl⟩⟩
    cases c.negated with
    | true => exact (readings_negated g).symm
    | false => exact List.map_id _
  | group kind members negated ih =>
    intro nested n k f h
    obtain ⟨fs, hfs, rfl⟩ := yields_group h
    have hempty : (readings (Filter.all fs).conditions).isEmpty
        = (Filter.all fs).conditions.isEmpty := by
      rw [readings_eq_map, List.isEmpty_map]
    -- A group without conditions stays without, on either side.
    have hgrouped : readings ((Filter.all fs).grouped kind).conditions
        = if (readings (Filter.all fs).conditions).isEmpty then []
          else [.join kind (readings (Filter.all fs).conditions)] := by
      rw [Filter.conditions_grouped, hempty]
      split <;> rfl
    rw [tree]
    refine yields_bind.mpr ⟨_, k, trees_of_yields (fun e he _ _ _ => ih e he) hfs,
      yields_pure.mpr ⟨?_, rfl⟩⟩
    cases negated with
    | true =>
      rw [if_pos rfl, readings_negated, hgrouped]
      split <;> rfl
    | false =>
      rw [if_neg Bool.false_ne_true, hgrouped]
      rfl

end Entry

/-! ### Texts of filters -/

theorem Closed.ne_nil {s : List Char} {r : Reading} (h : Closed s r) : s ≠ [] := by
  rintro rfl
  obtain ⟨ts, hts, -⟩ := h
  exact hts.ne_nil (Option.some.inj hts.terms).symm

namespace Filter

variable {f : Filter} {fs : List Filter}

/-- The text of the conditions of a filter. -/
def text (f : Filter) : String := textOf (Condition.allPieces f.conditions)

theorem text_eq_intercalate (f : Filter) :
    f.text = Connective.all.separator.intercalate (f.conditions.map Condition.text) := by
  unfold text Condition.allPieces
  rw [textOf_joined, Condition.listPieces_eq_map, List.map_map]
  rfl

/-- A text is empty where nothing is to be read, and else keeps together and is read as the only
tree. -/
def KeepsTogether (f : Filter) : List Reading → Prop
  | [] => f.text = ""
  | [r] => Closed f.text.toList r
  | _ => False

/-- The texts of those filters that have conditions. -/
def texts (fs : List Filter) : List String := (fs.map text).filter (· ≠ "")

/-- A text is that of other filters, joined by "and". -/
structure IsConjunction (f : Filter) (fs : List Filter) (rs : List Reading) : Prop where
  text : f.text = Connective.all.separator.intercalate (texts fs)
  /-- The connectives outside of parentheses are those between the texts. -/
  terms : ∃ tss, List.Forall₂ (fun s ts => HasClosedTerms s.toList ts) (texts fs) tss ∧
    terms? f.text.toList = some ([Term.ofWord Connective.all.keyword].intercalate tss)
  reads : rs ≠ [] → ReadsAs f.text.toList (.join .all rs)

theorem keepsTogether (hclosed : f.IsClosed) (hlength : f.conditions.length ≤ 1) :
    f.KeepsTogether (Condition.readings f.conditions) := by
  match hconditions : f.conditions with
  | [] =>
    show f.text = ""
    rw [text_eq_intercalate, hconditions]
    rfl
  | [c] =>
    show Closed f.text.toList c.reading
    rw [text_eq_intercalate, hconditions, List.map_singleton, String.intercalate_singleton]
    exact hclosed c (by rw [hconditions]; exact List.mem_singleton_self c)
  | _ :: _ :: _ =>
    rw [hconditions] at hlength
    exact absurd hlength (by simp)

/-- The texts of filters of one condition are those of the conditions. -/
theorem texts_eq_map (h : ∀ f ∈ fs, f.IsClosed ∧ f.conditions.length ≤ 1) :
    texts fs = (all fs).conditions.map Condition.text := by
  rw [conditions_all]
  induction fs with
  | nil => rfl
  | cons f fs ih =>
    rw [List.forall_mem_cons] at h
    obtain ⟨⟨hclosed, hlength⟩, hfs⟩ := h
    -- A filter with no condition has an empty text and is left out; one with a condition has a
    -- text.
    have hkeeps := keepsTogether hclosed hlength
    have hcons : texts (f :: fs) = f.conditions.map Condition.text ++ texts fs := by
      match hconditions : f.conditions with
      | [] =>
        rw [hconditions] at hkeeps
        have hempty : f.text = "" := hkeeps
        exact List.filter_cons_of_neg (by simpa using hempty)
      | [c] =>
        have htext : f.text = c.text := by
          rw [text_eq_intercalate, hconditions, List.map_singleton, String.intercalate_singleton]
        rw [hconditions] at hkeeps
        have hne : f.text ≠ "" := fun h => hkeeps.ne_nil (by rw [h]; rfl)
        rw [List.map_singleton, ← htext]
        exact List.filter_cons_of_pos (by simpa using hne)
      | _ :: _ :: _ =>
        rw [hconditions] at hlength
        exact absurd hlength (by simp)
    rw [hcons, ih hfs, List.flatMap_cons, List.map_append]

theorem isConjunction_all (h : ∀ f ∈ fs, f.IsClosed ∧ f.conditions.length ≤ 1) :
    (all fs).IsConjunction fs (Condition.readings (all fs).conditions) := by
  have hclosed : (all fs).IsClosed := IsClosed.all fun f hf => (h f hf).1
  have htexts := texts_eq_map h
  obtain ⟨tss, htss, -⟩ := exists_closedTerms (Condition.forall₂_closed hclosed)
  refine ⟨?_, ⟨tss, ?_, ?_⟩, fun hne => ?_⟩
  · rw [htexts, text_eq_intercalate]
  · rw [htexts, List.forall₂_map_left_iff]
    rwa [List.forall₂_map_left_iff] at htss
  · rw [text, Condition.allPieces, Condition.toList_textOf_joined]
    exact terms?_intercalate (htss.imp fun _ _ h => h.terms) .all
  · rw [Condition.readings_eq_map, Ne, List.map_eq_nil_iff] at hne
    exact Condition.reads_joined hne hclosed .all

/-- **Fragments of conditions** cannot be read apart: the text for an entry, below a negation or
not, is empty or closed and is read as the tree that it is built as; the text for a list of entries
has no connectives outside of parentheses but those that join the texts for the entries; and closed
texts that are joined by either connective, and texts that are put between parentheses or behind
"not", are read as what was joined, or negated. -/
theorem fragments_keep_together {stem : String}
    (hstem : ∀ c ∈ stem.toList, isWordChar c = true) :
    (∀ (e : Entry) (nested : Bool) (n : Nat) (f : Filter) (k : Nat),
      Yields (e.filter stem nested) n f k →
      ∃ rs, Yields (e.tree stem nested) n rs k ∧ f.KeepsTogether rs) ∧
    (∀ (es : List Entry) (n : Nat) (f : Filter) (k : Nat),
      ofEntriesFrom stem es n = (.ok f, k) →
      ∃ fs rs, Yields (Entry.filters stem false es) n fs k ∧
        Yields (Entry.trees stem false es) n rs k ∧ f.IsConjunction fs rs) ∧
    (∀ (ss : List (List Char)) (rs : List Reading) (kind : Connective),
      List.Forall₂ Closed ss rs → ss ≠ [] →
      ReadsAs (kind.separator.toList.intercalate ss) (.join kind rs)) ∧
    ∀ (s : List Char) (r : Reading), ReadsAs s r →
      Closed ('(' :: (s ++ [')'])) r ∧ Closed ("NOT (".toList ++ (s ++ [')'])) (.not r) := by
  refine ⟨fun e nested n f k h => ?_, fun es n f k h => ?_,
    fun ss rs kind h hne => Closed.reads_joined h hne kind,
    fun s r h => ⟨Closed.parens h, Closed.not h⟩⟩
  · obtain ⟨hclosed, hlength⟩ := e.isClosed_of_yields hstem h
    exact ⟨_, e.tree_of_yields h, keepsTogether hclosed hlength⟩
  · obtain ⟨fs, hfs, rfl⟩ := yields_map.mp h
    have hall : ∀ f ∈ fs, f.IsClosed ∧ f.conditions.length ≤ 1 :=
      Entry.forall_of_yields (fun e _ _ _ _ => e.isClosed_of_yields hstem) hfs
    exact ⟨fs, _, hfs, Entry.trees_of_yields (fun e _ _ _ _ => e.tree_of_yields) hfs,
      isConjunction_all hall⟩

/-- A negated group of a test for absence, of a group without clauses and of a search. -/
def blankGroup : Entry :=
  .group .all [.clause (.missing "name"), .group .any [] true,
    .clause (.contains "name" (.text "AND"))] true

/-- The "or" of the test for absence stays inside of its parentheses. -/
theorem fragments_keep_together_blankGroup :
    (∀ c ∈ defaultStem.toList, isWordChar c = true) ∧
    ∃ f, Yields (blankGroup.filter defaultStem false) 0 f 0 ∧
      f.text = "NOT (((n.name IS NULL OR n.name = '') AND n.name LIKE ? ESCAPE '\\'))" ∧
      Closed f.text.toList (.not (.group .all [
        .group .any [Condition.plainReading (.isNull (nodeColumn .name)),
          Condition.plainReading (.compare (nodeColumn .name) .equal (.quoted ""))],
        Condition.plainReading (.like (nodeColumn .name) (containingPattern "AND"))])) := by
  have hstem : ∀ c ∈ defaultStem.toList, isWordChar c = true := isWordChar_of_all (by decide)
  obtain ⟨f, hf⟩ : ∃ f, Yields (blankGroup.filter defaultStem false) 0 f 0 := ⟨_, rfl⟩
  obtain ⟨rs, hrs, hkeeps⟩ := (fragments_keep_together hstem).1 _ _ _ _ _ hf
  obtain rfl := Except.ok.inj (congrArg Prod.fst hf)
  obtain rfl := Except.ok.inj (congrArg Prod.fst hrs)
  exact ⟨hstem, _, hf, by decide, hkeeps⟩

end Filter

end GraphIndex
