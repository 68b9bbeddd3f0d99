import GraphIndex.Proofs.Plan.JoinSets

/-!
# Aliases that are handed out

`Entry.handed` lists the aliases that are handed out while an entry is compiled. Their numbers
follow each other without a gap (`Entry.inOrder_handed`), and the next free number is the one behind
them, also where the entry turns out to be at fault (`Entry.next_eq`). The numbered aliases that a
filter declares, in its joins and in its nested queries, are those that were handed out for it
(`Entry.perm_handed`).
-/

namespace GraphIndex

/-! ### Runs with and without a fault -/

section

variable {α β : Type} {n : Nat}

/-- What follows a step runs on from where the step stopped, unless the step failed. -/
theorem run_bind (m : Numbered α) (f : α → Numbered β) (n : Nat) :
    (m >>= f).run.run n = match m.run.run n with
      | (.ok a, k) => (f a).run.run k
      | (.error fault, k) => (.error fault, k) := by
  rw [ExceptT.run_bind, StateT.run_bind]
  rcases StateT.run (ExceptT.run m) n with ⟨_ | a, k⟩ <;> rfl

theorem run_map (m : Numbered α) (f : α → β) (n : Nat) :
    (m.map f).run.run n = ((m.run.run n).1.map f, (m.run.run n).2) := by
  have hmap : m.map f = m >>= fun a => pure (f a) := by
    rw [bind_pure_comp]
    rfl
  rw [hmap, run_bind]
  rcases StateT.run (ExceptT.run m) n with ⟨_ | a, k⟩ <;> rfl

end

/-! ### Numbered aliases -/

namespace Alias

/-- The number of an alias that was handed out. -/
def serial? : Alias → Option Nat
  | parentTag k | parentName k | fieldValue _ k => some k
  | _ => none

/-- Whether an alias was handed out. -/
def isNumbered (a : Alias) : Bool := a.serial?.isSome

/-- Whether an alias of a field value has the default stem. -/
def IsStandard : Alias → Prop
  | fieldValue stem _ => stem = Filter.defaultStem
  | _ => True

/-- Aliases with the default stem have different texts. -/
theorem name_inj {a b : Alias} (ha : a.IsStandard) (hb : b.IsStandard) (h : a.name = b.name) :
    a = b := by
  have hdigits : ∀ k k', Nat.toDigits 10 k = Nat.toDigits 10 k' → k = k' :=
    fun k k' h => Nat.repr_injective (congrArg String.ofList h)
  -- Where the kinds differ the first letters do; of two aliases of one kind the digits are left.
  cases a <;> cases b <;> simp_all [name, IsStandard, Filter.defaultStem, String.ext_iff]
  all_goals exact hdigits _ _ h

theorem nodup_names {as : List Alias} (has : ∀ a ∈ as, a.IsStandard) (hnodup : as.Nodup) :
    (as.map name).Nodup :=
  hnodup.map_on fun a ha b hb h => name_inj (has a ha) (has b hb) h

end Alias

/-! ### Aliases that are handed out -/

/-- The alias that is handed out for a clause, if it takes a number. -/
def Clause.handed (stem : String) (nested : Bool) (n : Nat) (c : Clause) : List Alias :=
  let op := c.effectiveOperator
  match Route.ofField c.field with
  | .ok .parentName => if nested && !op.isExistenceTest then [.parentName n] else []
  | .ok .parentTags => if op.isExistenceTest || op.isOrdering then [] else [.parentTag n]
  | .ok (.custom _) => [.fieldValue stem n]
  | _ => []

namespace Entry

mutual

/-- The aliases that are handed out for an entry, in their order. -/
def handed (stem : String) (nested : Bool) (n : Nat) : Entry → List Alias
  | clause c => c.handed stem (nested || c.negated) n
  | group _ members negated => handedAll stem (nested || negated) n members

/-- The aliases that are handed out for entries; none after the first entry at fault. -/
def handedAll (stem : String) (nested : Bool) (n : Nat) : List Entry → List Alias
  | [] => []
  | e :: rest =>
    e.handed stem nested n ++ match (e.filter stem nested).run.run n with
      | (.ok _, k) => handedAll stem nested k rest
      | (.error _, _) => []

end

end Entry

/-! ### Numbers that are taken -/

theorem Clause.next_eq (stem : String) (nested : Bool) (n : Nat) (c : Clause) :
    ((c.filter stem nested).run.run n).2
      = n + (c.handed stem (nested || c.negated) n).length := by
  have hfilter : ((c.filter stem nested).run.run n).2
      = ((c.positiveFilter stem (nested || c.negated)).run.run n).2 := by
    rw [Clause.filter, run_bind]
    rcases StateT.run (ExceptT.run (c.positiveFilter stem (nested || c.negated))) n
      with ⟨_ | f, k⟩ <;> rfl
  rw [hfilter]
  generalize (nested || c.negated) = below
  simp only [Clause.positiveFilter, Clause.handed]
  cases hroute : Route.ofField c.field with
  | error fault => rfl
  | ok route =>
    cases route with
    | column k => rfl
    | parentName =>
      simp only [parentNameFilter]
      by_cases hform : (below && !c.effectiveOperator.isExistenceTest) = true
      · rw [if_pos hform, if_pos hform]
        rfl
      · rw [if_neg hform, if_neg hform]
        rfl
    | parentTags =>
      simp only [parentTagsFilter]
      cases hop : c.effectiveOperator.isExistenceTest with
      | true => rfl
      | false =>
        cases hordering : c.effectiveOperator.isOrdering with
        | true => rfl
        | false => cases below <;> rfl
    | custom field =>
      -- The number is taken before the value is looked at.
      have hnext : nextNumber.run.run n = (.ok n, n + 1) := rfl
      simp only [customFilter]
      rw [run_bind, hnext]
      dsimp only
      by_cases hop : c.effectiveOperator.isExistenceTest = true
      · rw [if_pos hop]
        rfl
      · rw [if_neg hop, run_bind]
        cases fieldCondition field (.column (.fieldValue stem n) .fieldValue) c.value
          c.effectiveOperator with
        | error fault => rfl
        | ok holds => cases below <;> rfl

namespace Entry

variable {stem : String}

theorem nextAll_eq {es : List Entry}
    (hes : ∀ e ∈ es, ∀ nested n, ((e.filter stem nested).run.run n).2
      = n + (e.handed stem nested n).length) (nested : Bool) (n : Nat) :
    ((filters stem nested es).run.run n).2 = n + (handedAll stem nested n es).length := by
  induction es generalizing n with
  | nil => rfl
  | cons e es ih =>
    rw [List.forall_mem_cons] at hes
    have hnext := hes.1 nested n
    rw [filters, handedAll, run_bind, List.length_append]
    rcases hrun : StateT.run (ExceptT.run (e.filter stem nested)) n with ⟨_ | f, k⟩
    · rw [hrun] at hnext
      exact hnext
    · rw [hrun] at hnext
      have hrest := ih hes.2 k
      show (StateT.run (ExceptT.run (filters stem nested es >>= fun fs => pure (f :: fs))) k).2 = _
      rw [run_bind]
      rcases hrun' : StateT.run (ExceptT.run (filters stem nested es)) k with ⟨_ | fs, i⟩
      · rw [hrun'] at hrest
        show i = n + ((e.handed stem nested n).length + (handedAll stem nested k es).length)
        omega
      · rw [hrun'] at hrest
        show i = n + ((e.handed stem nested n).length + (handedAll stem nested k es).length)
        omega

/-- Compiling an entry takes as many numbers as aliases are handed out, also if it fails. -/
theorem next_eq (e : Entry) : ∀ nested n, ((e.filter stem nested).run.run n).2
    = n + (e.handed stem nested n).length := by
  induction e using Entry.induction with
  | clause c =>
    intro nested n
    exact c.next_eq stem nested n
  | group kind members negated ih =>
    intro nested n
    have hmembers := nextAll_eq ih (nested || negated) n
    rw [filter, handed, run_bind]
    rcases hrun : StateT.run (ExceptT.run (filters stem (nested || negated) members)) n
      with ⟨_ | fs, k⟩
    · rw [hrun] at hmembers
      exact hmembers
    · rw [hrun] at hmembers
      exact hmembers

end Entry

/-! ### Numbers without a gap -/

/-- The numbers of aliases follow each other from `n` on. -/
def Numbered.InOrder (n : Nat) (as : List Alias) : Prop :=
  as.map Alias.serial? = (List.range' n as.length).map some

namespace Numbered.InOrder

variable {n : Nat} {as bs : List Alias}

theorem nil (n : Nat) : InOrder n [] := rfl

theorem append (has : InOrder n as) (hbs : InOrder (n + as.length) bs) :
    InOrder n (as ++ bs) := by
  unfold InOrder at *
  rw [List.map_append, has, hbs, List.length_append, ← List.map_append, List.range'_append_1]

theorem nodup (has : InOrder n as) : as.Nodup := by
  refine List.Nodup.of_map Alias.serial? ?_
  unfold InOrder at has
  rw [has]
  exact (List.nodup_range' ..).map (Option.some_injective _)

end Numbered.InOrder

open Numbered (InOrder)

theorem Clause.inOrder_handed (stem : String) (nested : Bool) (n : Nat) (c : Clause) :
    InOrder n (c.handed stem nested n) := by
  unfold Clause.handed
  dsimp only
  split
  · split
    · rfl
    · rfl
  · split
    · rfl
    · rfl
  · rfl
  · rfl

namespace Entry

variable {stem : String}

theorem inOrder_handedAll {es : List Entry}
    (hes : ∀ e ∈ es, ∀ nested n, InOrder n (e.handed stem nested n)) (nested : Bool) (n : Nat) :
    InOrder n (handedAll stem nested n es) := by
  induction es generalizing n with
  | nil => exact .nil n
  | cons e es ih =>
    rw [List.forall_mem_cons] at hes
    have hnext : ((e.filter stem nested).run.run n).2 = n + (e.handed stem nested n).length :=
      e.next_eq nested n
    rw [handedAll]
    refine (hes.1 nested n).append ?_
    rcases hrun : StateT.run (ExceptT.run (e.filter stem nested)) n with ⟨_ | f, k⟩
    · exact .nil _
    · rw [hrun] at hnext
      rw [← hnext]
      exact ih hes.2 k

/-- The numbers of the aliases that are handed out for an entry follow each other. -/
theorem inOrder_handed (e : Entry) : ∀ nested n, InOrder n (e.handed stem nested n) := by
  induction e using Entry.induction with
  | clause c =>
    intro nested n
    exact c.inOrder_handed stem _ n
  | group kind members negated ih =>
    intro nested n
    exact inOrder_handedAll ih (nested || negated) n

end Entry

/-! ### Aliases with the default stem -/

theorem Clause.isStandard_of_mem_handed {c : Clause} {nested : Bool} {n : Nat} :
    ∀ a ∈ c.handed Filter.defaultStem nested n, a.IsStandard := by
  unfold Clause.handed
  dsimp only
  intro a ha
  split at ha
  · split at ha
    · rw [List.mem_singleton.mp ha]
      trivial
    · exact absurd ha List.not_mem_nil
  · split at ha
    · exact absurd ha List.not_mem_nil
    · rw [List.mem_singleton.mp ha]
      trivial
  · rw [List.mem_singleton.mp ha]
    rfl
  · exact absurd ha List.not_mem_nil

namespace Entry

theorem isStandard_of_mem_handedAll {es : List Entry}
    (hes : ∀ e ∈ es, ∀ nested n, ∀ a ∈ e.handed Filter.defaultStem nested n, a.IsStandard)
    (nested : Bool) (n : Nat) : ∀ a ∈ handedAll Filter.defaultStem nested n es, a.IsStandard := by
  induction es generalizing n with
  | nil => exact fun a ha => absurd ha List.not_mem_nil
  | cons e es ih =>
    rw [List.forall_mem_cons] at hes
    rw [handedAll, List.forall_mem_append]
    refine ⟨hes.1 nested n, ?_⟩
    split
    · exact ih hes.2 _
    · exact fun a ha => absurd ha List.not_mem_nil

theorem isStandard_of_mem_handed (e : Entry) :
    ∀ nested n, ∀ a ∈ e.handed Filter.defaultStem nested n, a.IsStandard := by
  induction e using Entry.induction with
  | clause c =>
    intro nested n
    exact c.isStandard_of_mem_handed
  | group kind members negated ih =>
    intro nested n
    exact isStandard_of_mem_handedAll ih (nested || negated) n

end Entry

/-! ### Aliases that filters declare -/

namespace Condition

mutual

/-- The aliases of the nested queries of a condition. -/
def declared : Condition → List Alias
  | .exists _ source conditions => source.name :: listDeclared conditions
  | group _ members => listDeclared members
  | not c => c.declared
  | _ => []

/-- The aliases of the nested queries of conditions. -/
def listDeclared : List Condition → List Alias
  | [] => []
  | c :: rest => c.declared ++ listDeclared rest

end

theorem listDeclared_eq_flatMap (cs : List Condition) : listDeclared cs = cs.flatMap declared := by
  induction cs with
  | nil => rfl
  | cons c cs ih => rw [listDeclared, ih, List.flatMap_cons]

theorem declared_valueCondition (e : Expr) (asText : Bool) (v : Operand) (op : Operator) :
    (valueCondition e asText v op).declared = [] := by
  cases op <;> rfl

theorem declared_fieldCondition {field : String} {e : Expr} {v : Operand} {op : Operator}
    {holds : Condition} (h : fieldCondition field e v op = .ok holds) : holds.declared = [] := by
  rcases fieldCondition_cases h with ⟨-, rfl⟩ | ⟨c, number, -, -, -, rfl⟩
  · exact declared_valueCondition _ _ _ _
  · rfl

end Condition

namespace Filter

/-- The numbered aliases that a filter declares, in its joins and in its nested queries. -/
def numbered (f : Filter) : List Alias :=
  (joinNames f.joins.joins ++ Condition.listDeclared f.conditions).filter Alias.isNumbered

theorem numbered_negated (f : Filter) : f.negated.numbered = f.numbered := by
  have hdeclared : Condition.listDeclared (f.conditions.map .not)
      = Condition.listDeclared f.conditions := by
    rw [Condition.listDeclared_eq_flatMap, Condition.listDeclared_eq_flatMap, List.flatMap_map]
    exact List.flatMap_congr fun c _ => rfl
  unfold numbered negated
  rw [hdeclared]

theorem numbered_grouped (kind : Connective) (f : Filter) :
    (f.grouped kind).numbered = f.numbered := by
  unfold grouped
  split
  · rfl
  · unfold numbered
    show ((joinNames f.joins.joins ++ (Condition.listDeclared f.conditions ++ [])).filter _) = _
    rw [List.append_nil]

variable {stem : String} {lo mid hi : Nat} {f g : Filter}

/-- Of the joins of a filter with later numbers only that of the parent can be there already. -/
theorem eq_parentJoin_of_contains (hf : ∀ j ∈ f.joins.joins, FilterJoin stem lo mid j) {j : Join}
    (hj : FilterJoin stem mid hi j) (hc : f.joins.contains j.key? = true) : j = parentJoin := by
  obtain ⟨j', hj', hkey⟩ := (JoinSet.contains_iff _ _).mp hc
  exact ((hf j' hj').eq_parentJoin_of_key_eq hj hkey).2

theorem joins_and (hg : g.joins.Distinct) : (f.and g).joins.joins
    = f.joins.joins ++ g.joins.joins.filter fun j => !f.joins.contains j.key? :=
  JoinSet.joins_insertAll_of_nodup hg

/-- Filters with separate numbers keep their numbered aliases when they are put together. -/
theorem perm_numbered_and (hf : Drawn stem lo mid f) (hg : Drawn stem mid hi g) :
    (f.and g).numbered.Perm (f.numbered ++ g.numbered) := by
  have hkept : (joinNames (g.joins.joins.filter fun j => !f.joins.contains j.key?)).filter
      Alias.isNumbered = (joinNames g.joins.joins).filter Alias.isNumbered := by
    unfold joinNames
    rw [List.filter_map, List.filter_map, List.filter_filter]
    refine congrArg _ (List.filter_congr fun j hj => ?_)
    -- A join that is dropped is that of the parent, whose alias has no number.
    cases hc : f.joins.contains j.key? with
    | false => rw [Bool.not_false, Bool.and_true]
    | true =>
      rw [eq_parentJoin_of_contains hf.joins (hg.joins j hj) hc]
      rfl
  have hdeclared : Condition.listDeclared (f.and g).conditions
      = Condition.listDeclared f.conditions ++ Condition.listDeclared g.conditions := by
    simp only [Condition.listDeclared_eq_flatMap, Filter.and, List.flatMap_append]
  unfold numbered
  rw [hdeclared, joins_and hg.distinct, joinNames, List.map_append]
  simp only [List.filter_append]
  rw [← joinNames, ← joinNames, hkept, List.append_assoc, List.append_assoc]
  exact (List.perm_append_comm_assoc _ _ _).append_left _

end Filter

namespace Clause

variable {stem : String} {c : Clause} {nested : Bool} {n k : Nat}

/-- A filter of one condition and different joins declares the aliases of both. -/
theorem numbered_of {condition : Condition} {js : List Join} (hkeys : (js.map Join.key?).Nodup) :
    (Filter.of condition js).numbered
      = (joinNames js).filter Alias.isNumbered ++ condition.declared.filter Alias.isNumbered := by
  have hjoins : (Filter.of condition js).joins.joins = js := JoinSet.joins_ofList hkeys
  unfold Filter.numbered
  rw [hjoins, List.filter_append]
  show _ ++ (condition.declared ++ []).filter _ = _
  rw [List.append_nil]

theorem numbered_of_nil (condition : Condition) :
    (Filter.of condition []).numbered = condition.declared.filter Alias.isNumbered := by
  have hkeys : (([] : List Join).map Join.key?).Nodup := List.nodup_nil
  exact numbered_of hkeys

theorem numbered_of_singleton (condition : Condition) (j : Join) :
    (Filter.of condition [j]).numbered
      = [j.source.name].filter Alias.isNumbered ++ condition.declared.filter Alias.isNumbered := by
  have hkeys : ([j].map Join.key?).Nodup := List.nodup_singleton _
  exact numbered_of hkeys

/-- A clause declares the alias that is handed out for it. -/
theorem Becomes.numbered {g : Filter} (h : c.Becomes stem nested n g k) :
    g.numbered = c.handed stem nested n := by
  unfold Clause.handed
  cases h with
  | column column hroute =>
    rw [numbered_of_nil, hroute, Condition.declared_valueCondition]
    rfl
  | parentName hroute hjoined =>
    rw [numbered_of_singleton, hroute, Condition.declared_valueCondition]
    simp only [if_neg (joined_iff.mpr hjoined)]
    rfl
  | nestedParentName hroute hop =>
    rw [numbered_of_nil]
    simp only [hroute, hop, Bool.not_false, Bool.and_self, if_pos, Condition.declared,
      Condition.listDeclared, Condition.declared_valueCondition]
    rfl
  | parentTagPresence hroute hop =>
    rw [numbered_of_nil]
    simp only [hroute, hop, Bool.true_or, if_pos]
    rfl
  | parentTag hroute hop hordering =>
    rw [numbered_of (nodup_keys_parentTag n), Condition.declared_valueCondition]
    simp only [hroute, hop, hordering, Bool.or_self, if_neg Bool.false_ne_true]
    rfl
  | nestedParentTag hroute hop hordering =>
    rw [numbered_of_nil]
    simp only [hroute, hop, hordering, Bool.or_self, if_neg Bool.false_ne_true, Condition.declared,
      Condition.listDeclared, Condition.declared_valueCondition]
    rfl
  | fieldPresence field hroute hop =>
    rw [numbered_of_nil, hroute]
    rfl
  | field field holds hroute hop hholds =>
    rw [numbered_of_singleton, hroute, Condition.declared_fieldCondition hholds]
    rfl
  | nestedField field holds hroute hop hholds =>
    rw [numbered_of_nil, hroute]
    simp only [ofField, Condition.declared, Condition.listDeclared, List.cons_append,
      List.nil_append, Condition.declared_fieldCondition hholds]
    rfl

end Clause

namespace Entry

variable {stem : String}

theorem perm_handedAll {es : List Entry} {nested : Bool}
    (hes : ∀ e ∈ es, ∀ {n k f}, Yields (e.filter stem nested) n f k →
      f.numbered.Perm (e.handed stem nested n))
    {n k : Nat} {fs : List Filter} (h : Yields (filters stem nested es) n fs k) :
    (Filter.all fs).numbered.Perm (handedAll stem nested n es) := by
  induction es generalizing n fs with
  | nil =>
    obtain ⟨rfl, -⟩ := yields_nil h
    exact List.Perm.refl _
  | cons e es ih =>
    obtain ⟨f, gs, i, rfl, hf, hgs, hdrawn, hrest⟩ := exists_drawn_of_yields_cons h
    rw [List.forall_mem_cons] at hes
    have hhanded : handedAll stem nested n (e :: es)
        = e.handed stem nested n ++ handedAll stem nested i es := by
      rw [handedAll, hf]
    rw [Filter.all_cons hdrawn.distinct, hhanded]
    exact (Filter.perm_numbered_and hdrawn hrest).trans ((hes.1 hf).append (ih hes.2 hgs))

/-- The aliases that the filter of an entry declares are those that were handed out for it. -/
theorem perm_handed (e : Entry) : ∀ {nested : Bool} {n k : Nat} {f : Filter},
    Yields (e.filter stem nested) n f k → f.numbered.Perm (e.handed stem nested n) := by
  induction e using Entry.induction with
  | clause c =>
    intro nested n k f h
    obtain ⟨g, hg, rfl⟩ := yields_clause h
    have heq : g.numbered = c.handed stem (nested || c.negated) n := hg.numbered
    split
    · rw [Filter.numbered_negated, heq]
      exact List.Perm.refl _
    · rw [heq]
      exact List.Perm.refl _
  | group kind members negated ih =>
    intro nested n k f h
    obtain ⟨fs, hfs, rfl⟩ := yields_group h
    have hmembers : (Filter.all fs).numbered.Perm
        (handedAll stem (nested || negated) n members) := perm_handedAll (fun e he => ih e he) hfs
    split
    · rw [Filter.numbered_negated, Filter.numbered_grouped]
      exact hmembers
    · rw [Filter.numbered_grouped]
      exact hmembers

end Entry

end GraphIndex
