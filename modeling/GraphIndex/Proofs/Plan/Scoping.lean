import GraphIndex.Proofs.Plan.Calls
import GraphIndex.Proofs.Plan.Dimensions
import GraphIndex.Statement.Text

/-!
# Scoping of statements

Every row that a statement reads is declared: it is the node that is asked for, a row of a join, or
a row of the nested query that reads it. `Selection.Scoped` says this of the joins and conditions of
a statement; sort keys and keys of groups read no more (`PageStatement.Scoped`,
`GroupStatement.Scoped`). Every statement that is made is scoped, and so are the joins of every run
of a compiler (`statements_scoped`).
-/

namespace GraphIndex

/-! ### Rows that conditions read -/

namespace Condition

theorem listNames_append (cs ds : List Condition) :
    listNames (cs ++ ds) = listNames cs ++ listNames ds := by
  induction cs with
  | nil => rfl
  | cons c cs ih => rw [List.cons_append, listNames, listNames, ih, List.append_assoc]

theorem names_valueCondition (e : Expr) (asText : Bool) (v : Operand) (op : Operator) :
    (valueCondition e asText v op).names ⊆ e.names := by
  cases op with
  | compare c =>
    exact fun a ha => (List.mem_append.mp ha).elim id fun h => absurd h List.not_mem_nil
  | contains => exact List.Subset.refl _
  | present => exact List.Subset.refl _
  | missing =>
    intro a ha
    simpa [valueCondition, blankCondition, names, listNames, Expr.names] using ha

theorem names_fieldCondition {field : String} {e : Expr} {v : Operand} {op : Operator}
    {holds : Condition} (h : fieldCondition field e v op = .ok holds) :
    holds.names ⊆ e.names := by
  rcases fieldCondition_cases h with ⟨-, rfl⟩ | ⟨c, number, -, -, -, rfl⟩
  · exact names_valueCondition _ _ _ _
  · intro a ha
    simpa [numeralComparison, numeralConditions, names, listNames, Expr.names] using ha

/-- A nested query reads what its conditions read, but for its own row. -/
theorem names_exists {holds : Bool} {source : Source} {cs : List Condition}
    {declared : List Alias} (h : listNames cs ⊆ source.name :: declared) :
    (Condition.exists holds source cs).names ⊆ declared := by
  intro a ha
  obtain ⟨hmem, hne⟩ := List.mem_filter.mp ha
  exact (List.mem_cons.mp (h hmem)).resolve_left (of_decide_eq_true hne)

theorem names_ofField (a : Alias) (field : String) :
    listNames (ofField a field) = [a, .node, a] := rfl

/-- The conditions on a row that belongs to the node. -/
theorem listNames_linked {a : Alias} {column : Column} {k : NodeColumn} {d : Condition}
    (hd : d.names ⊆ [a]) :
    listNames [sameColumns (.column a column) (nodeColumn k), d] ⊆ [a, .node] := by
  have heq : listNames [sameColumns (.column a column) (nodeColumn k), d]
      = [a, .node] ++ (d.names ++ []) := rfl
  rw [heq, List.append_nil]
  exact List.append_subset.mpr ⟨List.Subset.refl _, fun b hb => List.mem_cons.mpr
    (Or.inl (List.mem_singleton.mp (hd hb)))⟩

/-- The conditions on a row that holds a value of a field of the node. -/
theorem listNames_valued {a : Alias} {field : String} {d : Condition} (hd : d.names ⊆ [a]) :
    listNames (ofField a field ++ [d]) ⊆ [a, .node] := by
  rw [listNames_append, names_ofField]
  refine List.append_subset.mpr ⟨by simp, ?_⟩
  have heq : listNames [d] = d.names ++ [] := rfl
  rw [heq, List.append_nil]
  exact fun b hb => List.mem_cons.mpr (Or.inl (List.mem_singleton.mp (hd hb)))

end Condition

namespace Filter

/-- The conditions of a filter read only the node and the rows of its joins. -/
def Closed (f : Filter) : Prop :=
  Condition.listNames f.conditions ⊆ .node :: joinNames f.joins.joins

theorem closed_none : none.Closed := List.nil_subset _

theorem Closed.negated {f : Filter} (h : f.Closed) : f.negated.Closed := by
  have hnames : ∀ cs : List Condition,
      Condition.listNames (cs.map .not) = Condition.listNames cs := by
    intro cs
    induction cs with
    | nil => rfl
    | cons c cs ih => rw [List.map_cons, Condition.listNames, Condition.listNames, ih]; rfl
  unfold Closed Filter.negated
  rw [hnames]
  exact h

theorem Closed.grouped {f : Filter} (kind : Connective) (h : f.Closed) :
    (f.grouped kind).Closed := by
  unfold Filter.grouped
  split
  · exact h
  · intro a ha
    have hmem : a ∈ Condition.listNames f.conditions ++ [] := ha
    rw [List.append_nil] at hmem
    exact h hmem

variable {stem : String} {lo mid hi : Nat} {f g : Filter}

/-- What is put together keeps the joins of both parts, so nothing that is read gets lost. -/
theorem Closed.and (hf : Drawn stem lo mid f) (hg : Drawn stem mid hi g) (h : f.Closed)
    (h' : g.Closed) : (f.and g).Closed := by
  have hjoins : ∀ j, j ∈ (f.and g).joins.joins ↔ j ∈ f.joins.joins ∨ j ∈ g.joins.joins :=
    mem_and_iff hf hg
  -- Joins are only added, so that every name stays declared.
  have hmono : ∀ {k : Filter}, (∀ j ∈ k.joins.joins, j ∈ (f.and g).joins.joins) →
      k.Closed → Condition.listNames k.conditions ⊆ .node :: joinNames (f.and g).joins.joins := by
    intro k hk hclosed a ha
    rcases List.mem_cons.mp (hclosed ha) with rfl | hname
    · exact List.mem_cons_self
    · obtain ⟨j, hj, rfl⟩ := List.mem_map.mp hname
      exact List.mem_cons_of_mem _ (List.mem_map_of_mem (hk j hj))
  unfold Closed
  show Condition.listNames (f.conditions ++ g.conditions) ⊆ _
  rw [Condition.listNames_append]
  exact List.append_subset.mpr ⟨hmono (fun j hj => (hjoins j).mpr (Or.inl hj)) h,
    hmono (fun j hj => (hjoins j).mpr (Or.inr hj)) h'⟩

/-- A condition on rows that are joined for it. -/
theorem closed_of {condition : Condition} {js : List Join} (hkeys : (js.map Join.key?).Nodup)
    (hnames : condition.names ⊆ .node :: joinNames js) : (Filter.of condition js).Closed := by
  have hjoins : (Filter.of condition js).joins.joins = js := JoinSet.joins_ofList hkeys
  unfold Closed
  rw [hjoins]
  show condition.names ++ [] ⊆ _
  rw [List.append_nil]
  exact hnames

end Filter

namespace Clause

variable {stem : String} {c : Clause} {nested : Bool} {n k : Nat} {f : Filter}

theorem closed_of_nil {condition : Condition} (h : condition.names ⊆ [.node]) :
    (Filter.of condition []).Closed := by
  have hkeys : (([] : List Join).map Join.key?).Nodup := List.nodup_nil
  exact Filter.closed_of hkeys h

/-- A condition on the row of one join. -/
theorem closed_of_singleton {condition : Condition} {j : Join}
    (h : condition.names ⊆ [j.source.name]) : (Filter.of condition [j]).Closed := by
  have hkeys : ([j].map Join.key?).Nodup := List.nodup_singleton _
  exact Filter.closed_of hkeys fun a ha => List.mem_cons_of_mem _ (h ha)

/-- The condition of a clause reads only the node and the rows that are joined for it. -/
theorem Becomes.closed (h : c.Becomes stem nested n f k) : f.Closed := by
  cases h with
  | column column hroute => exact closed_of_nil (Condition.names_valueCondition _ _ _ _)
  | parentName hroute hjoined => exact closed_of_singleton (Condition.names_valueCondition _ _ _ _)
  | nestedParentName hroute hop =>
    have hnames := Condition.names_valueCondition
      (.column (.parentName n) (.node .name)) false c.value c.effectiveOperator
    exact closed_of_nil (Condition.names_exists (Condition.listNames_linked hnames))
  | parentTagPresence hroute hop =>
    exact closed_of_nil (Condition.names_exists (List.Subset.refl _))
  | parentTag hroute hop hordering =>
    refine Filter.closed_of (nodup_keys_parentTag n) fun a ha => ?_
    have hname := Condition.names_valueCondition _ _ _ _ ha
    exact List.mem_cons_of_mem _ (List.mem_cons_of_mem _ hname)
  | nestedParentTag hroute hop hordering =>
    have hnames := Condition.names_valueCondition
      (.column (.parentTag n) .tagName) true c.value c.effectiveOperator
    exact closed_of_nil (Condition.names_exists (Condition.listNames_linked hnames))
  | fieldPresence field hroute hop =>
    refine closed_of_nil (Condition.names_exists ?_)
    rw [Condition.listNames_append, Condition.names_ofField]
    intro a ha
    have hmem : a ∈ [Alias.fieldValue stem n, .node, .fieldValue stem n, .fieldValue stem n,
        .fieldValue stem n] := ha
    simp only [List.mem_cons, List.not_mem_nil] at hmem ⊢
    tauto
  | field field holds hroute hop hholds =>
    exact closed_of_singleton (Condition.names_fieldCondition hholds)
  | nestedField field holds hroute hop hholds =>
    have hnames := Condition.names_fieldCondition hholds
    exact closed_of_nil (Condition.names_exists (Condition.listNames_valued hnames))

end Clause

namespace Entry

variable {stem : String}

theorem closed_all {es : List Entry} {nested : Bool}
    (hes : ∀ e ∈ es, ∀ {n k f}, Yields (e.filter stem nested) n f k → f.Closed)
    {n k : Nat} {fs : List Filter} (h : Yields (filters stem nested es) n fs k) :
    (Filter.all fs).Closed :=
  all_of_yields_of_drawn (fun f _ => f.Closed) (fun _ => ([] : List Unit)) Filter.closed_none
    (fun hf hg h h' => h.and hf hg h') hes h

theorem closed_of_yields (e : Entry) : ∀ {nested : Bool} {n k : Nat} {f : Filter},
    Yields (e.filter stem nested) n f k → f.Closed :=
  filter_induction Clause.Becomes.closed Filter.Closed.negated
    (fun kind hes h => (closed_all hes h).grouped kind) e

end Entry

theorem Filter.closed_of_ofEntries {es : List Entry} {f : Filter} (h : ofEntries es = .ok f) :
    f.Closed := by
  obtain ⟨fs, k, hfs, rfl⟩ := yields_of_ofEntries h
  exact Entry.closed_all (fun e _ => e.closed_of_yields) hfs

/-! ### Joins that are declared in order -/

/-- What is declared before a join is all that it reads besides its own row. -/
theorem WellScoped.of_append {declared : List Alias} {before after : List Join} {j : Join}
    (h : WellScoped declared (before ++ j :: after)) :
    j.names ⊆ joinNames before ++ declared ∧ j.source.name ∉ joinNames before ++ declared := by
  induction before generalizing declared with
  | nil => exact ⟨h.2.1, h.1⟩
  | cons j' before ih =>
    obtain ⟨hnames, hnew⟩ := ih h.2.2
    have hmem : ∀ a, a ∈ joinNames before ++ j'.source.name :: declared ↔
        a ∈ joinNames (j' :: before) ++ declared := by
      intro a
      simp only [joinNames, List.map_cons, List.cons_append, List.mem_append, List.mem_cons]
      tauto
    exact ⟨fun a ha => (hmem a).mp (hnames ha), fun ha => hnew ((hmem _).mpr ha)⟩

theorem WellScoped.nodup {declared : List Alias} {js : List Join} (h : WellScoped declared js) :
    (joinNames js).Nodup ∧ ∀ a ∈ declared, a ∉ joinNames js := by
  induction js generalizing declared with
  | nil => exact ⟨List.nodup_nil, fun _ _ => List.not_mem_nil⟩
  | cons j js ih =>
    obtain ⟨hnew, -, hrest⟩ := h
    obtain ⟨hnodup, hothers⟩ := ih hrest
    refine ⟨List.nodup_cons.mpr ⟨hothers _ List.mem_cons_self, hnodup⟩, fun a ha hname => ?_⟩
    rcases List.mem_cons.mp hname with rfl | hname
    · exact hnew ha
    · exact hothers a (List.mem_cons_of_mem _ ha) hname

theorem StatementJoin.isStandard {place : Nat} {j : Join} (h : StatementJoin place j) :
    j.source.name.IsStandard := by
  cases h with
  | target tag => trivial
  | filter h =>
    cases h with
    | parent => trivial
    | parentTag k _ _ => trivial
    | field k name _ _ => rfl
  | parentTags hk => trivial
  | field hk name => trivial

/-- A join of tags other than the target reads the row of the parent. -/
theorem StatementJoin.parent_mem_names {place : Nat} {j : Join} (h : StatementJoin place j)
    (htable : j.source.table = .tags) (hname : j.source.name ≠ .tagged) : .parent ∈ j.names := by
  cases h with
  | target tag => exact absurd rfl hname
  | filter h =>
    cases h with
    | parent => exact absurd htable (by rintro ⟨⟩)
    | parentTag k _ _ =>
      rw [Join.names_parentTagJoin (by simp)]
      exact List.mem_singleton_self _
    | field k name _ _ => exact absurd htable (by rintro ⟨⟩)
  | parentTags hk =>
    rw [Join.names_parentTagJoin (by simp)]
    exact List.mem_singleton_self _
  | field hk name => exact absurd htable (by rintro ⟨⟩)

theorem StatementJoin.eq_parentJoin_of_name {place : Nat} {j : Join} (h : StatementJoin place j)
    (hname : j.source.name = .parent) : j = parentJoin :=
  h.eq_parentJoin (congrArg Alias.joinKey? hname)

/-! ### Selections -/

namespace Selection

/-- The rows that a selection declares: the node that is asked for, and those of its joins. -/
def declared (s : Selection) : List Alias := .node :: joinNames s.joins.joins

/-- Every row is declared once, before a join reads it, and the conditions read no other row. -/
structure Scoped (s : Selection) : Prop where
  /-- No text stands for two rows. -/
  once : (s.declared.map Alias.name).Nodup
  /-- A join reads the node, the rows of the joins before it, and its own. -/
  joins : ∀ {before j after}, s.joins.joins = before ++ j :: after →
    Condition.listNames j.on ⊆ j.source.name :: .node :: joinNames before
  /-- The tags of the parent are joined behind the parent. -/
  parentTags : ∀ {before j after}, s.joins.joins = before ++ j :: after →
    j.source.table = .tags → j.source.name ≠ .tagged → parentJoin ∈ before
  conditions : Condition.listNames s.conditions ⊆ s.declared

/-- Arranged joins declare what conditions read that read only the rows of some of them. -/
theorem scoped_of_arranged {place : Nat} {s : Selection} (hjoins : s.joins.Arranged place)
    (hconditions : Condition.listNames s.conditions ⊆ s.declared) : s.Scoped where
  once := by
    obtain ⟨hnodup, hothers⟩ := hjoins.ordered.nodup
    have hdeclared : s.declared.Nodup :=
      List.nodup_cons.mpr ⟨hothers _ (List.mem_singleton_self _), hnodup⟩
    refine Alias.nodup_names (fun a ha => ?_) hdeclared
    rcases List.mem_cons.mp ha with rfl | ha
    · trivial
    · obtain ⟨j, hj, rfl⟩ := List.mem_map.mp ha
      exact (hjoins.joins j hj).isStandard
  joins := by
    intro before j after heq a ha
    have hordered : WellScoped [.node] (before ++ j :: after) := heq ▸ hjoins.ordered
    by_cases hown : a = j.source.name
    · rw [hown]
      exact List.mem_cons_self
    · have hread : a ∈ j.names := List.mem_filter.mpr ⟨ha, decide_eq_true hown⟩
      rcases List.mem_append.mp (hordered.of_append.1 hread) with hbefore | hnode
      · exact List.mem_cons_of_mem _ (List.mem_cons_of_mem _ hbefore)
      · rw [List.mem_singleton.mp hnode]
        exact List.mem_cons_of_mem _ List.mem_cons_self
  parentTags := by
    intro before j after heq htable hname
    have hordered : WellScoped [.node] (before ++ j :: after) := heq ▸ hjoins.ordered
    have hmem : ∀ j' ∈ before ++ j :: after, StatementJoin place j' := heq ▸ hjoins.joins
    have hread : .parent ∈ j.names :=
      (hmem j (List.mem_append_right _ List.mem_cons_self)).parent_mem_names htable hname
    -- The row of the parent is that of a join in front, and no other join has its alias.
    rcases List.mem_append.mp (hordered.of_append.1 hread) with hbefore | hnode
    · obtain ⟨j', hj', hparent⟩ := List.mem_map.mp hbefore
      rw [← (hmem j' (List.mem_append_left _ hj')).eq_parentJoin_of_name hparent]
      exact hj'
    · exact absurd (List.mem_singleton.mp hnode) (by simp)
  conditions := hconditions

/-- The conditions of a selection read the node and the rows of its joins. -/
theorem listNames_of {find : String} {es : List Entry} {s : Selection}
    (h : Selection.of find es = .ok s) : Condition.listNames s.conditions ⊆ s.declared := by
  obtain ⟨f, hf, hconditions, -, hmem⟩ := Selection.joins_of h
  have hclosed : f.Closed := Filter.closed_of_ofEntries hf
  rw [hconditions]
  intro a ha
  rcases List.mem_cons.mp (hclosed ha) with rfl | hname
  · exact List.mem_cons_self
  · obtain ⟨j, hj, rfl⟩ := List.mem_map.mp hname
    exact List.mem_cons_of_mem _ (List.mem_map_of_mem ((hmem j).mpr (Or.inr hj)))

theorem scoped_of {find : String} {es : List Entry} {s : Selection}
    (h : Selection.of find es = .ok s) : s.Scoped :=
  scoped_of_arranged (JoinSet.arranged_of_selection h) (listNames_of h)

end Selection

/-! ### Sort keys -/

/-- A nested query for one value. -/
structure ValueQuery where
  value : Expr
  source : Source
  conditions : List Condition
  /-- Of several rows that with the first value of this expression counts. -/
  first? : Option Expr
  deriving Repr

namespace ValueQuery

open Piece in
/-- The pieces of a nested query. -/
def pieces (q : ValueQuery) : List Piece :=
  text "(SELECT " :: (q.value.pieces
    ++ text (" FROM " ++ q.source.table.name ++ " " ++ q.source.name.name ++ " WHERE ")
    :: (Condition.allPieces q.conditions ++ match q.first? with
      | none => [text ")"]
      | some e => text " ORDER BY " :: (e.pieces ++ [text " LIMIT 1)"])))

/-- The aliases that a nested query reads, without its own. -/
def names (q : ValueQuery) : List Alias :=
  (q.value.names ++ Condition.listNames q.conditions
    ++ (q.first?.map Expr.names).getD []).filter (· ≠ q.source.name)

end ValueQuery

namespace SortTerm

/-- The query for the name of the parent. -/
def parentQuery : ValueQuery where
  value := .column .sortParent (.node .name)
  source := ⟨.nodes, .sortParent⟩
  conditions := [sameColumns (.column .sortParent (.node .id)) (nodeColumn .parentId)]
  first? := none

/-- The query for the first value of a field. -/
def fieldQuery (name : String) : ValueQuery where
  value := .column .sortField .fieldValue
  source := ⟨.fields, .sortField⟩
  conditions := GraphIndex.ofField .sortField name
  first? := some (.column .sortField .fieldOrder)

/-- The nested query that a sort key is, unless it is a column of the node. -/
def query? : SortTerm → Option ValueQuery
  | column _ => none
  | parentName => some parentQuery
  | field name => some (fieldQuery name)

/-- A sort key is written as its nested query. -/
theorem textOf_pieces_of_query? {t : SortTerm} {q : ValueQuery} (h : t.query? = some q) :
    Piece.textOf t.pieces = Piece.textOf q.pieces
      ∧ Piece.valuesOf t.pieces = Piece.valuesOf q.pieces := by
  cases t with
  | column c => exact absurd h (by rintro ⟨⟩)
  | parentName =>
    obtain rfl := Option.some.inj h
    exact ⟨by decide, rfl⟩
  | field name =>
    obtain rfl := Option.some.inj h
    -- The name stands in a slot, so the text is the same for every name.
    have htext : Piece.textOf (field "").pieces = Piece.textOf (fieldQuery "").pieces := by decide
    exact ⟨htext, rfl⟩

/-- The aliases that a sort key reads. -/
def names (t : SortTerm) : List Alias := (t.query?.map ValueQuery.names).getD [.node]

theorem names_eq (t : SortTerm) : ∀ a ∈ t.names, a = .node := by
  cases t with
  | column c => exact fun a ha => List.mem_singleton.mp ha
  | parentName => decide
  | field name =>
    have heq : (field name).names = [.node] := rfl
    rw [heq]
    exact fun a ha => List.mem_singleton.mp ha

end SortTerm

/-! ### Statements -/

/-- The sort key of a page reads only declared rows. -/
structure PageStatement.Scoped (s : PageStatement) : Prop where
  selection : s.selection.Scoped
  sortBy : s.sortBy.names ⊆ s.selection.declared

/-- The keys of groups read only declared rows. -/
structure GroupStatement.Scoped (s : GroupStatement) : Prop where
  selection : s.selection.Scoped
  keys : ∀ e ∈ s.keys, e.names ⊆ s.selection.declared

theorem Query.scoped_of_statement {q : Query} {s : PageStatement} (h : q.statement = .ok s) :
    s.Scoped := by
  simp only [Query.statement, bind_eq_ok_iff] at h
  obtain ⟨selection, hselection, term, hterm, hpure⟩ := h
  obtain rfl := Except.ok.inj hpure
  refine ⟨Selection.scoped_of hselection, fun a ha => ?_⟩
  rw [SortTerm.names_eq term a ha]
  exact List.mem_cons_self

namespace Dimension

theorem names_period (p : Period) (c : DateColumn) : (p.expr c).names ⊆ [.node] := by
  cases p with
  | quarter =>
    have heq : (Period.quarter.expr c).names = [.node, .node] := rfl
    rw [heq]
    decide
  | _ => exact List.Subset.refl _

/-- The key of a dimension reads the node or a row that is joined for it. -/
theorem Becomes.names {place : Nat} {d : Dimension} {key : GroupKey} (h : d.Becomes place key) :
    key.expr.names ⊆ .node :: joinNames key.joins := by
  cases h with
  | period p c => exact fun a ha => names_period p c ha
  | column c hroute => exact List.Subset.refl _
  | parentName hroute => exact List.subset_cons_self _ _
  | parentTags hroute =>
    exact fun a ha => List.mem_cons_of_mem _ (List.mem_cons_of_mem _ ha)
  | custom field hroute => exact List.subset_cons_self _ _

end Dimension

theorem Aggregation.scoped_of_statement {a : Aggregation} {s : GroupStatement}
    (h : a.statement = .ok s) : s.Scoped := by
  have harranged := JoinSet.arranged_of_statement h
  obtain ⟨selection, keys, hselection, hkeys, rfl⟩ := Aggregation.exists_of_statement h
  have hmem := (JoinSet.Arranged.insertKeys hkeys (JoinSet.arranged_of_selection hselection)).2
  -- The joins of the selection and those of the dimensions are all there.
  have hdeclared : ∀ js : List Join,
      (∀ j ∈ js, j ∈ selection.joins.joins ∨ ∃ key ∈ keys, j ∈ key.joins) →
      .node :: joinNames js ⊆ .node :: joinNames
        (selection.joins.insertAll (keys.flatMap GroupKey.joins)).joins := by
    intro js hjs a ha
    rcases List.mem_cons.mp ha with rfl | hname
    · exact List.mem_cons_self
    · obtain ⟨j, hj, rfl⟩ := List.mem_map.mp hname
      exact List.mem_cons_of_mem _ (List.mem_map_of_mem ((hmem j).mpr (hjs j hj)))
  refine ⟨Selection.scoped_of_arranged harranged ?_, fun e he => ?_⟩
  · have hread := Selection.listNames_of hselection
    exact List.Subset.trans hread (hdeclared _ fun j hj => Or.inl hj)
  · obtain ⟨key, hkey, rfl⟩ := List.mem_map.mp he
    obtain ⟨place, d, hbecomes⟩ := hkeys.exists_of_mem key hkey
    have hread := hbecomes.names
    exact List.Subset.trans hread (hdeclared _ fun j hj => Or.inr ⟨key, hkey, hj⟩)

/-- **Statements are well scoped**: whatever calls one compiler answers, the aliases that it hands
out are different and no join gets lost but repeated joins of the parent; and in every statement for
a page, for groups or for a total every row is declared once, before it is read. -/
theorem statements_scoped :
    (∀ cs : List Filter.Call, Filter.Call.Separated cs) ∧
    (∀ (q : Query) (s : PageStatement), q.statement = .ok s → s.Scoped) ∧
    (∀ (a : Aggregation) (s : GroupStatement), a.statement = .ok s → s.Scoped) ∧
    ∀ (find : String) (es : List Entry) (s : Selection), Selection.of find es = .ok s →
      s.Scoped :=
  ⟨Filter.Call.separated, fun _ _ => Query.scoped_of_statement,
    fun _ _ => Aggregation.scoped_of_statement, fun _ _ _ => Selection.scoped_of⟩

/-- Conditions on a tag of the parent, on a field, and on the name of the parent below a
negation. -/
def scopedConditions : List Entry :=
  [.clause (.equalTo "parent.tags" (.text "urgent")), .clause (.equalTo "status" (.text "open")),
    .clause { Clause.equalTo "parent.name" (.text "Plan") with negated := true }]

/-- The third call fails, the fourth goes on with the next number. -/
def scopedCalls : List Filter.Call :=
  [.all scopedConditions, .one (.clause (.equalTo "parent.tags" (.text "late"))),
    .one (.clause (.plain "priority" (.compare .less) (.text "high"))),
    .one (.clause (.equalTo "status" (.text "done")))]

/-- The tasks with these conditions, along two dimensions that share the parent. -/
def scopedAggregation : Aggregation :=
  { Aggregation.along "task" [.field "parent.tags", .field "parent.name"] with
    conditions := scopedConditions }

theorem statements_scoped_sample :
    Filter.Call.Separated scopedCalls ∧
    (Filter.Call.handedAll Filter.defaultStem 0 scopedCalls).map Alias.name
      = ["pt0", "fv1", "pn2", "pt3", "fv4", "fv5"] ∧
    (∃ s, ({ Query.forTarget "task" with conditions := scopedConditions } : Query).statement = .ok s
      ∧ s.Scoped) ∧
    (∃ s, scopedAggregation.statement = .ok s ∧ s.Scoped) ∧
    (scopedAggregation.statement.toOption.map fun s => s.selection.declared.map Alias.name)
      = some ["n", "ta", "parent", "pt0", "fv1", "g0"] ∧
    ∃ s, Selection.of "task" scopedConditions = .ok s ∧ s.Scoped := by
  obtain ⟨hcalls, hpage, hgroups, hselection⟩ := statements_scoped
  obtain ⟨page, hpageOk⟩ : ∃ s,
    ({ Query.forTarget "task" with conditions := scopedConditions } : Query).statement = .ok s :=
    ⟨_, rfl⟩
  obtain ⟨groups, hgroupsOk⟩ : ∃ s, scopedAggregation.statement = .ok s := ⟨_, rfl⟩
  obtain ⟨selection, hselectionOk⟩ : ∃ s, Selection.of "task" scopedConditions = .ok s := ⟨_, rfl⟩
  refine ⟨hcalls scopedCalls, by decide, ⟨page, hpageOk, hpage _ _ hpageOk⟩,
    ⟨groups, hgroupsOk, hgroups _ _ hgroupsOk⟩, by decide,
    ⟨selection, hselectionOk, hselection _ _ _ hselectionOk⟩⟩

end GraphIndex
