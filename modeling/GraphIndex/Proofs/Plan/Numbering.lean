import GraphIndex.Plan.Filter
import Mathlib.Data.List.Basic

/-!
# How conditions turn into filters

`Yields m n a k` says that a computation that gives out numbers succeeds with the value `a`, the
next free number being `n` before and `k` after it. `Clause.Becomes` lists what a clause without its
own negation can turn into (`Clause.becomes_of_yields`); the lemmas `Entry.yields_…` take the filter
of a tree apart into those of its members.
-/

namespace GraphIndex

/-! ### Computations that give out numbers -/

/-- The computation succeeds with a value; the numbers are the next free ones before and after. -/
def Yields {α : Type} (m : Numbered α) (n : Nat) (a : α) (k : Nat) : Prop :=
  m.run.run n = (.ok a, k)

section

variable {α β : Type} {n k : Nat}

theorem yields_pure {a b : α} : Yields (pure a) n b k ↔ a = b ∧ n = k := by
  show ((Except.ok a : Except Fault α), n) = (.ok b, k) ↔ _
  simp only [Prod.mk.injEq, Except.ok.injEq]

theorem not_yields_throw {fault : Fault} {a : α} : ¬ Yields (throw fault) n a k := by
  show ¬ ((Except.error fault : Except Fault α), n) = (.ok a, k)
  simp only [Prod.mk.injEq, reduceCtorEq, false_and, not_false_eq_true]

theorem yields_bind {m : Numbered α} {f : α → Numbered β} {b : β} :
    Yields (m >>= f) n b k ↔ ∃ a i, Yields m n a i ∧ Yields (f a) i b k := by
  unfold Yields
  rw [ExceptT.run_bind, StateT.run_bind]
  rcases hm : StateT.run (ExceptT.run m) n with ⟨result, i⟩
  cases result with
  | ok a =>
    constructor
    · exact fun h => ⟨a, i, rfl, h⟩
    · rintro ⟨a', i', heq, h⟩
      obtain ⟨hresult, rfl⟩ := Prod.mk.inj heq
      obtain rfl := Except.ok.inj hresult
      exact h
  | error fault =>
    constructor
    · intro h
      exact absurd (congrArg Prod.fst h) (by rintro ⟨⟩)
    · rintro ⟨a, i', heq, -⟩
      exact absurd (congrArg Prod.fst heq) (by rintro ⟨⟩)

theorem yields_map {m : Numbered α} {f : α → β} {b : β} :
    Yields (m.map f) n b k ↔ ∃ a, Yields m n a k ∧ b = f a := by
  have hmap : m.map f = m >>= fun a => pure (f a) := by
    rw [bind_pure_comp]
    rfl
  rw [hmap, yields_bind]
  constructor
  · rintro ⟨a, i, ha, hpure⟩
    obtain ⟨rfl, rfl⟩ := yields_pure.mp hpure
    exact ⟨a, ha, rfl⟩
  · rintro ⟨a, ha, rfl⟩
    exact ⟨a, k, ha, yields_pure.mpr ⟨rfl, rfl⟩⟩

theorem yields_nextNumber {i : Nat} : Yields nextNumber n i k ↔ n = i ∧ n + 1 = k := by
  show ((Except.ok n : Except Fault Nat), n + 1) = (.ok i, k) ↔ _
  simp only [Prod.mk.injEq, Except.ok.injEq]

theorem yields_lift {r : Except Fault α} {a : α} :
    Yields (liftM r) n a k ↔ r = .ok a ∧ n = k := by
  show (r, n) = (.ok a, k) ↔ _
  rw [Prod.mk.injEq]

end

/-! ### Clauses -/

namespace Clause

variable (stem : String) (c : Clause)

/-- What a clause can turn into, its own negation left out. -/
inductive Becomes : Bool → Nat → Filter → Nat → Prop
  | column {nested : Bool} {n : Nat} (k : NodeColumn)
      (hroute : Route.ofField c.field = .ok (.column k)) :
      Becomes nested n (.of (valueCondition (nodeColumn k) false c.value c.effectiveOperator) []) n
  | parentName {nested : Bool} {n : Nat} (hroute : Route.ofField c.field = .ok .parentName)
      (hjoined : nested = true → c.effectiveOperator.isExistenceTest = true) :
      Becomes nested n (.of
        (valueCondition (.column .parent (.node .name)) false c.value c.effectiveOperator)
        [parentJoin]) n
  | nestedParentName {n : Nat} (hroute : Route.ofField c.field = .ok .parentName)
      (hop : c.effectiveOperator.isExistenceTest = false) :
      Becomes true n (.of (.exists true ⟨.nodes, .parentName n⟩
        [sameColumns (.column (.parentName n) (.node .id)) (nodeColumn .parentId),
          valueCondition (.column (.parentName n) (.node .name)) false c.value
            c.effectiveOperator]) []) (n + 1)
  | parentTagPresence {nested : Bool} {n : Nat} (hroute : Route.ofField c.field = .ok .parentTags)
      (hop : c.effectiveOperator.isExistenceTest = true) :
      Becomes nested n (.of (parentTagPresence (c.effectiveOperator == .present)) []) n
  | parentTag {n : Nat} (hroute : Route.ofField c.field = .ok .parentTags)
      (hop : c.effectiveOperator.isExistenceTest = false)
      (hordering : c.effectiveOperator.isOrdering = false) :
      Becomes false n (.of
        (valueCondition (.column (.parentTag n) .tagName) true c.value c.effectiveOperator)
        [parentJoin, parentTagJoin (.parentTag n)]) (n + 1)
  | nestedParentTag {n : Nat} (hroute : Route.ofField c.field = .ok .parentTags)
      (hop : c.effectiveOperator.isExistenceTest = false)
      (hordering : c.effectiveOperator.isOrdering = false) :
      Becomes true n (.of (.exists true ⟨.tags, .parentTag n⟩
        [sameColumns (.column (.parentTag n) .tagNode) (nodeColumn .parentId),
          valueCondition (.column (.parentTag n) .tagName) true c.value
            c.effectiveOperator]) []) (n + 1)
  | fieldPresence {nested : Bool} {n : Nat} (field : String)
      (hroute : Route.ofField c.field = .ok (.custom field))
      (hop : c.effectiveOperator.isExistenceTest = true) :
      Becomes nested n (.of (fieldPresence (c.effectiveOperator == .present)
        (.fieldValue stem n) field) []) (n + 1)
  | field {n : Nat} (field : String) (holds : Condition)
      (hroute : Route.ofField c.field = .ok (.custom field))
      (hop : c.effectiveOperator.isExistenceTest = false)
      (hholds : fieldCondition field (.column (.fieldValue stem n) .fieldValue) c.value
        c.effectiveOperator = .ok holds) :
      Becomes false n (.of holds [fieldJoin (.fieldValue stem n) field]) (n + 1)
  | nestedField {n : Nat} (field : String) (holds : Condition)
      (hroute : Route.ofField c.field = .ok (.custom field))
      (hop : c.effectiveOperator.isExistenceTest = false)
      (hholds : fieldCondition field (.column (.fieldValue stem n) .fieldValue) c.value
        c.effectiveOperator = .ok holds) :
      Becomes true n (.of (.exists true ⟨.fields, .fieldValue stem n⟩
        (ofField (.fieldValue stem n) field ++ [holds])) []) (n + 1)

variable {stem c}

theorem joined_iff {nested : Bool} {op : Operator} :
    ¬ (nested && !op.isExistenceTest) = true ↔ (nested = true → op.isExistenceTest = true) := by
  rw [Bool.and_eq_true, Bool.not_eq_true', not_and, Bool.not_eq_false]

theorem becomes_of_yields_parentName {nested : Bool} {n k : Nat} {f : Filter}
    (hroute : Route.ofField c.field = .ok .parentName)
    (h : Yields (parentNameFilter nested c.effectiveOperator c.value) n f k) :
    Becomes stem c nested n f k := by
  unfold parentNameFilter at h
  by_cases hnested : (nested && !c.effectiveOperator.isExistenceTest) = true
  · rw [if_pos hnested, yields_bind] at h
    obtain ⟨i, i', hnext, hpure⟩ := h
    obtain ⟨rfl, rfl⟩ := yields_nextNumber.mp hnext
    obtain ⟨rfl, rfl⟩ := yields_pure.mp hpure
    rw [Bool.and_eq_true, Bool.not_eq_true'] at hnested
    rw [hnested.1]
    exact .nestedParentName hroute hnested.2
  · rw [if_neg hnested] at h
    obtain ⟨rfl, rfl⟩ := yields_pure.mp h
    exact .parentName hroute (joined_iff.mp hnested)

theorem becomes_of_yields_parentTags {nested : Bool} {n k : Nat} {f : Filter}
    (hroute : Route.ofField c.field = .ok .parentTags)
    (h : Yields (parentTagsFilter nested c.field c.effectiveOperator c.value) n f k) :
    Becomes stem c nested n f k := by
  unfold parentTagsFilter at h
  by_cases hop : c.effectiveOperator.isExistenceTest = true
  · rw [if_pos hop] at h
    obtain ⟨rfl, rfl⟩ := yields_pure.mp h
    exact .parentTagPresence hroute hop
  rw [if_neg hop] at h
  rw [Bool.not_eq_true] at hop
  by_cases hordering : c.effectiveOperator.isOrdering = true
  · rw [if_pos hordering] at h
    exact absurd h not_yields_throw
  rw [if_neg hordering, yields_bind] at h
  rw [Bool.not_eq_true] at hordering
  obtain ⟨i, i', hnext, hrest⟩ := h
  obtain ⟨rfl, rfl⟩ := yields_nextNumber.mp hnext
  cases nested with
  | true =>
    obtain ⟨rfl, rfl⟩ := yields_pure.mp hrest
    exact .nestedParentTag hroute hop hordering
  | false =>
    obtain ⟨rfl, rfl⟩ := yields_pure.mp hrest
    exact .parentTag hroute hop hordering

theorem becomes_of_yields_custom {nested : Bool} {n k : Nat} {f : Filter} {field : String}
    (hroute : Route.ofField c.field = .ok (.custom field))
    (h : Yields (customFilter stem nested field c.effectiveOperator c.value) n f k) :
    Becomes stem c nested n f k := by
  unfold customFilter at h
  -- The number is taken first: a test for presence names the alias too.
  rw [yields_bind] at h
  obtain ⟨i, i', hnext, hrest⟩ := h
  obtain ⟨rfl, rfl⟩ := yields_nextNumber.mp hnext
  by_cases hop : c.effectiveOperator.isExistenceTest = true
  · rw [if_pos hop] at hrest
    obtain ⟨rfl, rfl⟩ := yields_pure.mp hrest
    exact .fieldPresence field hroute hop
  rw [if_neg hop, yields_bind] at hrest
  rw [Bool.not_eq_true] at hop
  obtain ⟨holds, i, hlift, hrest⟩ := hrest
  obtain ⟨hholds, rfl⟩ := yields_lift.mp hlift
  cases nested with
  | true =>
    obtain ⟨rfl, rfl⟩ := yields_pure.mp hrest
    exact .nestedField field holds hroute hop hholds
  | false =>
    obtain ⟨rfl, rfl⟩ := yields_pure.mp hrest
    exact .field field holds hroute hop hholds

/-- What a clause turns into is among what it can turn into: one compiler for each route. -/
theorem becomes_of_yields {nested : Bool} {n k : Nat} {f : Filter}
    (h : Yields (c.positiveFilter stem nested) n f k) : Becomes stem c nested n f k := by
  unfold Clause.positiveFilter at h
  cases hroute : Route.ofField c.field with
  | error fault =>
    rw [hroute] at h
    exact absurd h not_yields_throw
  | ok route =>
    rw [hroute] at h
    cases route with
    | column column =>
      obtain ⟨rfl, rfl⟩ := yields_pure.mp h
      exact .column column hroute
    | parentName => exact becomes_of_yields_parentName hroute h
    | parentTags => exact becomes_of_yields_parentTags hroute h
    | custom field => exact becomes_of_yields_custom hroute h

/-- What a clause can turn into is what it turns into. -/
theorem Becomes.yields {nested : Bool} {n k : Nat} {f : Filter} (h : Becomes stem c nested n f k) :
    Yields (c.positiveFilter stem nested) n f k := by
  unfold Clause.positiveFilter
  cases h with
  | column k hroute =>
    rw [hroute]
    exact yields_pure.mpr ⟨rfl, rfl⟩
  | parentName hroute hjoined =>
    simp only [hroute, parentNameFilter, if_neg (joined_iff.mpr hjoined)]
    exact yields_pure.mpr ⟨rfl, rfl⟩
  | nestedParentName hroute hop =>
    simp only [hroute, parentNameFilter, hop, Bool.not_false, Bool.and_self, if_pos]
    exact yields_bind.mpr ⟨n, n + 1, yields_nextNumber.mpr ⟨rfl, rfl⟩, yields_pure.mpr ⟨rfl, rfl⟩⟩
  | parentTagPresence hroute hop =>
    simp only [hroute, parentTagsFilter, if_pos hop]
    exact yields_pure.mpr ⟨rfl, rfl⟩
  | parentTag hroute hop hordering =>
    simp only [hroute, parentTagsFilter, hop, hordering, if_neg Bool.false_ne_true]
    exact yields_bind.mpr ⟨n, n + 1, yields_nextNumber.mpr ⟨rfl, rfl⟩, yields_pure.mpr ⟨rfl, rfl⟩⟩
  | nestedParentTag hroute hop hordering =>
    simp only [hroute, parentTagsFilter, hop, hordering, if_neg Bool.false_ne_true]
    exact yields_bind.mpr ⟨n, n + 1, yields_nextNumber.mpr ⟨rfl, rfl⟩, yields_pure.mpr ⟨rfl, rfl⟩⟩
  | fieldPresence field hroute hop =>
    simp only [hroute, customFilter, if_pos hop]
    exact yields_bind.mpr ⟨n, n + 1, yields_nextNumber.mpr ⟨rfl, rfl⟩, yields_pure.mpr ⟨rfl, rfl⟩⟩
  | field field holds hroute hop hholds =>
    simp only [hroute, customFilter, hop, if_neg Bool.false_ne_true]
    exact yields_bind.mpr ⟨n, n + 1, yields_nextNumber.mpr ⟨rfl, rfl⟩, yields_bind.mpr
      ⟨holds, n + 1, yields_lift.mpr ⟨hholds, rfl⟩, yields_pure.mpr ⟨rfl, rfl⟩⟩⟩
  | nestedField field holds hroute hop hholds =>
    simp only [hroute, customFilter, hop, if_neg Bool.false_ne_true]
    exact yields_bind.mpr ⟨n, n + 1, yields_nextNumber.mpr ⟨rfl, rfl⟩, yields_bind.mpr
      ⟨holds, n + 1, yields_lift.mpr ⟨hholds, rfl⟩, yields_pure.mpr ⟨rfl, rfl⟩⟩⟩

end Clause

/-! ### Clauses that turn into filters -/

/-- The condition that a text is a numeral and stands in an order to a given number. -/
def numeralComparison (e : Expr) (c : Comparison) (number : Datum) : Condition :=
  .group .all (numeralConditions e ++ [.compare (.cast e .real) c (.bound number)])

/-- A comparison by order becomes one with a number, every other operator the condition on the
text. -/
theorem fieldCondition_cases {field : String} {e : Expr} {v : Operand} {op : Operator}
    {holds : Condition} (h : fieldCondition field e v op = .ok holds) :
    (op.isOrdering = false ∧ holds = valueCondition e true v op) ∨
    ∃ c number, op = .compare c ∧ c.isOrdering = true ∧ v.number? = some number ∧
      holds = numeralComparison e c number := by
  cases op with
  | compare c =>
    unfold fieldCondition at h
    by_cases hc : c.isOrdering = true
    · simp only [if_pos hc, numericCondition] at h
      cases hnumber : v.number? with
      | none =>
        rw [hnumber] at h
        exact absurd h (by rintro ⟨⟩)
      | some number =>
        rw [hnumber] at h
        exact Or.inr ⟨c, number, rfl, hc, rfl, (Except.ok.inj h).symm⟩
    · simp only [if_neg hc] at h
      exact Or.inl ⟨Bool.eq_false_iff.mpr hc, (Except.ok.inj h).symm⟩
  | contains => exact Or.inl ⟨rfl, (Except.ok.inj h).symm⟩
  | present => exact Or.inl ⟨rfl, (Except.ok.inj h).symm⟩
  | missing => exact Or.inl ⟨rfl, (Except.ok.inj h).symm⟩

theorem fieldCondition_of_number {field : String} {e : Expr} {v : Operand} {c : Comparison}
    {number : Datum} (hc : c.isOrdering = true) (hnumber : v.number? = some number) :
    fieldCondition field e v (.compare c) = .ok (numeralComparison e c number) := by
  simp only [fieldCondition, if_pos hc, numericCondition, hnumber]
  rfl

theorem fieldCondition_of_not_ordering {field : String} {e : Expr} {v : Operand} {op : Operator}
    (hop : op.isOrdering = false) :
    fieldCondition field e v op = .ok (valueCondition e true v op) := by
  cases op with
  | compare c =>
    have hc : ¬ c.isOrdering = true := by
      rw [show c.isOrdering = false from hop]
      exact Bool.false_ne_true
    simp only [fieldCondition, if_neg hc]
  | contains => rfl
  | present => rfl
  | missing => rfl

/-- Whether a comparison can be made does not depend on the expression that is compared. -/
theorem fieldCondition_eq_ok {field : String} {e : Expr} {v : Operand} {op : Operator}
    {holds : Condition} (h : fieldCondition field e v op = .ok holds) (e' : Expr) :
    ∃ holds', fieldCondition field e' v op = .ok holds' := by
  rcases fieldCondition_cases h with ⟨hop, -⟩ | ⟨c, number, rfl, hc, hnumber, -⟩
  · exact ⟨_, fieldCondition_of_not_ordering hop⟩
  · exact ⟨_, fieldCondition_of_number hc hnumber⟩

namespace Clause

variable {stem : String} {c : Clause}

theorem exists_yields_parentName (nested : Bool) (op : Operator) (v : Operand) (n : Nat) :
    ∃ f k, Yields (parentNameFilter nested op v) n f k := by
  unfold parentNameFilter
  split
  · exact ⟨_, _, yields_bind.mpr ⟨n, n + 1, yields_nextNumber.mpr ⟨rfl, rfl⟩,
      yields_pure.mpr ⟨rfl, rfl⟩⟩⟩
  · exact ⟨_, _, yields_pure.mpr ⟨rfl, rfl⟩⟩

theorem exists_yields_parentTags (nested : Bool) (field : String) {op : Operator} (v : Operand)
    (n : Nat) (hop : op.isExistenceTest = true ∨ op.isOrdering = false) :
    ∃ f k, Yields (parentTagsFilter nested field op v) n f k := by
  unfold parentTagsFilter
  by_cases htest : op.isExistenceTest = true
  · rw [if_pos htest]
    exact ⟨_, _, yields_pure.mpr ⟨rfl, rfl⟩⟩
  · have hordering : ¬ op.isOrdering = true := by
      rw [hop.resolve_left htest]
      exact Bool.false_ne_true
    rw [if_neg htest, if_neg hordering]
    simp only [yields_bind, yields_nextNumber]
    cases nested with
    | true => exact ⟨_, _, n, n + 1, ⟨rfl, rfl⟩, yields_pure.mpr ⟨rfl, rfl⟩⟩
    | false => exact ⟨_, _, n, n + 1, ⟨rfl, rfl⟩, yields_pure.mpr ⟨rfl, rfl⟩⟩

theorem exists_yields_custom (nested : Bool) (field : String) {op : Operator} (v : Operand)
    (n : Nat) (hop : op.isExistenceTest = true ∨
      ∃ e holds, fieldCondition field e v op = .ok holds) :
    ∃ f k, Yields (customFilter stem nested field op v) n f k := by
  unfold customFilter
  simp only [yields_bind, yields_nextNumber]
  by_cases htest : op.isExistenceTest = true
  · simp only [if_pos htest]
    exact ⟨_, _, n, n + 1, ⟨rfl, rfl⟩, yields_pure.mpr ⟨rfl, rfl⟩⟩
  · obtain ⟨e, holds, hholds⟩ := hop.resolve_left htest
    obtain ⟨holds', hholds'⟩ :=
      fieldCondition_eq_ok hholds (.column (.fieldValue stem n) .fieldValue)
    simp only [if_neg htest, yields_bind, yields_lift]
    cases nested with
    | true =>
      exact ⟨_, _, n, n + 1, ⟨rfl, rfl⟩, holds', _, ⟨hholds', rfl⟩, yields_pure.mpr ⟨rfl, rfl⟩⟩
    | false =>
      exact ⟨_, _, n, n + 1, ⟨rfl, rfl⟩, holds', _, ⟨hholds', rfl⟩, yields_pure.mpr ⟨rfl, rfl⟩⟩

/-- A clause that turns into a filter does so below a negation and outside of negations, with any
numbers. -/
theorem Becomes.exists_yields {nested : Bool} {n k : Nat} {f : Filter}
    (h : c.Becomes stem nested n f k) (nested' : Bool) (n' : Nat) :
    ∃ f' k', Yields (c.positiveFilter stem nested') n' f' k' := by
  unfold Clause.positiveFilter
  cases h with
  | column k hroute =>
    rw [hroute]
    exact ⟨_, _, yields_pure.mpr ⟨rfl, rfl⟩⟩
  | parentName hroute _ =>
    rw [hroute]
    exact exists_yields_parentName _ _ _ _
  | nestedParentName hroute _ =>
    rw [hroute]
    exact exists_yields_parentName _ _ _ _
  | parentTagPresence hroute hop =>
    rw [hroute]
    exact exists_yields_parentTags _ _ _ _ (Or.inl hop)
  | parentTag hroute _ hordering =>
    rw [hroute]
    exact exists_yields_parentTags _ _ _ _ (Or.inr hordering)
  | nestedParentTag hroute _ hordering =>
    rw [hroute]
    exact exists_yields_parentTags _ _ _ _ (Or.inr hordering)
  | fieldPresence field hroute hop =>
    rw [hroute]
    exact exists_yields_custom _ _ _ _ (Or.inl hop)
  | field field holds hroute _ hholds =>
    rw [hroute]
    exact exists_yields_custom _ _ _ _ (Or.inr ⟨_, _, hholds⟩)
  | nestedField field holds hroute _ hholds =>
    rw [hroute]
    exact exists_yields_custom _ _ _ _ (Or.inr ⟨_, _, hholds⟩)

end Clause

/-! ### Trees of conditions -/

namespace Entry

/-- Induction over a tree of conditions, with the hypothesis for every member of a group. -/
theorem induction {P : Entry → Prop} (clause : ∀ c, P (.clause c))
    (group : ∀ kind members negated, (∀ e ∈ members, P e) → P (.group kind members negated))
    (e : Entry) : P e := by
  refine Entry.rec (motive_1 := P) (motive_2 := fun es => ∀ e ∈ es, P e) clause group ?_ ?_ e
  · exact fun e he => absurd he List.not_mem_nil
  · exact fun e es he hes => List.forall_mem_cons.mpr ⟨he, hes⟩

variable {stem : String} {nested : Bool} {n k : Nat}

theorem yields_clause {c : Clause} {f : Filter}
    (h : Yields ((Entry.clause c).filter stem nested) n f k) :
    ∃ g, c.Becomes stem (nested || c.negated) n g k
      ∧ f = if c.negated then g.negated else g := by
  rw [Entry.filter, Clause.filter, yields_bind] at h
  obtain ⟨g, i, hg, hpure⟩ := h
  obtain ⟨rfl, rfl⟩ := yields_pure.mp hpure
  exact ⟨g, Clause.becomes_of_yields hg, rfl⟩

theorem yields_group {kind : Connective} {members : List Entry} {negated : Bool} {f : Filter}
    (h : Yields ((Entry.group kind members negated).filter stem nested) n f k) :
    ∃ fs, Yields (filters stem (nested || negated) members) n fs k
      ∧ f = if negated then ((Filter.all fs).grouped kind).negated
        else (Filter.all fs).grouped kind := by
  rw [Entry.filter, yields_bind] at h
  obtain ⟨fs, i, hfs, hpure⟩ := h
  obtain ⟨rfl, rfl⟩ := yields_pure.mp hpure
  exact ⟨fs, hfs, rfl⟩

theorem yields_group_of_members {members : List Entry} {fs : List Filter}
    (h : Yields (filters stem nested members) n fs k) (kind : Connective) :
    Yields ((Entry.group kind members false).filter stem nested) n ((Filter.all fs).grouped kind)
      k := by
  rw [Entry.filter, Bool.or_false]
  exact yields_bind.mpr ⟨fs, k, h, yields_pure.mpr ⟨if_neg Bool.false_ne_true, rfl⟩⟩

/-- What holds of the filters of clauses, and is kept when filters are negated and when those of the
members of a group are put together, holds of the filter of every tree. -/
theorem filter_induction {P : Nat → Nat → Filter → Prop}
    (hclause : ∀ {c nested n k f}, Clause.Becomes stem c nested n f k → P n k f)
    (hnegated : ∀ {n k f}, P n k f → P n k f.negated)
    (hgroup : ∀ {es nested n k fs} (kind : Connective), (∀ e ∈ es, ∀ {n k f},
      Yields (e.filter stem nested) n f k → P n k f) → Yields (filters stem nested es) n fs k →
        P n k ((Filter.all fs).grouped kind)) (e : Entry) :
    ∀ {nested n k f}, Yields (e.filter stem nested) n f k → P n k f := by
  induction e using Entry.induction with
  | clause c =>
    intro nested n k f h
    obtain ⟨g, hg, rfl⟩ := yields_clause h
    split
    · exact hnegated (hclause hg)
    · exact hclause hg
  | group kind members negated ih =>
    intro nested n k f h
    obtain ⟨fs, hfs, rfl⟩ := yields_group h
    have hmembers : P n k ((Filter.all fs).grouped kind) := hgroup kind (fun e he => ih e he) hfs
    split
    · exact hnegated hmembers
    · exact hmembers

theorem yields_nil {fs : List Filter} (h : Yields (filters stem nested []) n fs k) :
    fs = [] ∧ n = k := by
  rw [filters] at h
  obtain ⟨rfl, rfl⟩ := yields_pure.mp h
  exact ⟨rfl, rfl⟩

theorem yields_cons {e : Entry} {es : List Entry} {fs : List Filter}
    (h : Yields (filters stem nested (e :: es)) n fs k) :
    ∃ f gs i, Yields (e.filter stem nested) n f i ∧ Yields (filters stem nested es) i gs k
      ∧ fs = f :: gs := by
  rw [filters, yields_bind] at h
  obtain ⟨f, i, hf, hrest⟩ := h
  rw [yields_bind] at hrest
  obtain ⟨gs, j, hgs, hpure⟩ := hrest
  obtain ⟨rfl, rfl⟩ := yields_pure.mp hpure
  exact ⟨f, gs, i, hf, hgs, rfl⟩

theorem yields_append {es es' : List Entry} {fs fs' : List Filter} {i : Nat}
    (h : Yields (filters stem nested es) n fs i) (h' : Yields (filters stem nested es') i fs' k) :
    Yields (filters stem nested (es ++ es')) n (fs ++ fs') k := by
  induction es generalizing n fs with
  | nil =>
    obtain ⟨rfl, rfl⟩ := yields_nil h
    exact h'
  | cons e es ih =>
    obtain ⟨f, gs, j, hf, hgs, rfl⟩ := yields_cons h
    rw [List.cons_append, filters]
    exact yields_bind.mpr ⟨f, j, hf, yields_bind.mpr ⟨gs ++ fs', k, ih hgs,
      yields_pure.mpr ⟨rfl, rfl⟩⟩⟩

theorem exists_yields_of_mem {es : List Entry} {fs : List Filter}
    (h : Yields (filters stem nested es) n fs k) :
    ∀ e ∈ es, ∃ i f j, Yields (e.filter stem nested) i f j := by
  induction es generalizing n fs with
  | nil => exact fun e he => absurd he List.not_mem_nil
  | cons e es ih =>
    obtain ⟨f, gs, i, hf, hgs, rfl⟩ := yields_cons h
    exact List.forall_mem_cons.mpr ⟨⟨n, f, i, hf⟩, ih hgs⟩

theorem exists_yields_filters {es : List Entry}
    (h : ∀ e ∈ es, ∀ i, ∃ f j, Yields (e.filter stem nested) i f j) (n : Nat) :
    ∃ fs k, Yields (filters stem nested es) n fs k := by
  induction es generalizing n with
  | nil =>
    rw [filters]
    exact ⟨[], n, yields_pure.mpr ⟨rfl, rfl⟩⟩
  | cons e es ih =>
    rw [List.forall_mem_cons] at h
    obtain ⟨f, i, hf⟩ := h.1 n
    obtain ⟨fs, k, hfs⟩ := ih h.2 i
    rw [filters]
    exact ⟨f :: fs, k, yields_bind.mpr ⟨f, i, hf, yields_bind.mpr ⟨fs, k, hfs,
      yields_pure.mpr ⟨rfl, rfl⟩⟩⟩⟩

theorem exists_yields_clause {c : Clause} {g : Filter} (h : c.Becomes stem nested n g k)
    (negated nested' : Bool) (n' : Nat) : ∃ f' k', Yields
      ((Entry.clause { c with negated := negated }).filter stem nested') n' f' k' := by
  obtain ⟨g', k', hg'⟩ := h.exists_yields (nested' || negated) n'
  rw [Entry.filter, Clause.filter]
  exact ⟨_, k', yields_bind.mpr ⟨g', k', hg', yields_pure.mpr ⟨rfl, rfl⟩⟩⟩

/-- A tree that turns into a filter does so below a negation and outside of negations, negated or
not. -/
theorem exists_yields (e : Entry) : ∀ {nested n f k}, Yields (e.filter stem nested) n f k →
    ∀ nested' n', (∃ f' k', Yields (e.filter stem nested') n' f' k') ∧
      ∃ f' k', Yields (e.negate.filter stem nested') n' f' k' := by
  induction e using Entry.induction with
  | clause c =>
    intro nested n f k h nested' n'
    obtain ⟨g, hg, -⟩ := yields_clause h
    exact ⟨exists_yields_clause hg c.negated nested' n',
      exists_yields_clause hg (!c.negated) nested' n'⟩
  | group kind members negated ih =>
    intro nested n f k h nested' n'
    obtain ⟨fs, hfs, -⟩ := yields_group h
    -- A negation of the group only changes how its members are nested.
    have hfilter : ∀ negated, ∃ f' k', Yields
        ((Entry.group kind members negated).filter stem nested') n' f' k' := by
      intro negated
      have hmembers : ∀ e ∈ members, ∀ i, ∃ f j,
          Yields (e.filter stem (nested' || negated)) i f j := by
        intro e he i
        obtain ⟨_, _, _, hyields⟩ := exists_yields_of_mem hfs e he
        exact (ih e he hyields _ i).1
      obtain ⟨fs', k', hfs'⟩ := exists_yields_filters hmembers n'
      rw [Entry.filter]
      exact ⟨_, k', yields_bind.mpr ⟨fs', k', hfs', yields_pure.mpr ⟨rfl, rfl⟩⟩⟩
    exact ⟨hfilter negated, hfilter !negated⟩

/-- What holds of the filter of every member, and is kept when filters are put together, holds of
the filter of a list. `value` is what the property says of a member besides. -/
theorem all_of_yields {α : Type} (P : Nat → Nat → Filter → List α → Prop) (value : Entry → List α)
    (hnone : ∀ n, P n n Filter.none [])
    (hand : ∀ {lo mid hi f g as bs}, P lo mid f as → P mid hi g bs → P lo hi (f.and g) (as ++ bs))
    {es : List Entry}
    (hes : ∀ e ∈ es, ∀ {n k f}, Yields (e.filter stem nested) n f k → P n k f (value e))
    {fs : List Filter} (h : Yields (filters stem nested es) n fs k) :
    P n k (Filter.all fs) (es.flatMap value) := by
  -- The filter made so far and its numbers vary along the list.
  have hfold : ∀ (es : List Entry),
      (∀ e ∈ es, ∀ {n k f}, Yields (e.filter stem nested) n f k → P n k f (value e)) →
      ∀ {lo n k acc as fs}, P lo n acc as → Yields (filters stem nested es) n fs k →
        P lo k (fs.foldl Filter.and acc) (as ++ es.flatMap value) := by
    intro es
    induction es with
    | nil =>
      intro _ lo n k acc as fs hacc h
      obtain ⟨rfl, rfl⟩ := yields_nil h
      rw [List.flatMap_nil, List.append_nil]
      exact hacc
    | cons e es ih =>
      intro hes lo n k acc as fs hacc h
      obtain ⟨f, gs, i, hf, hgs, rfl⟩ := yields_cons h
      rw [List.foldl_cons, List.flatMap_cons, ← List.append_assoc]
      exact ih (fun e' he' => hes e' (List.mem_cons_of_mem _ he'))
        (hand hacc (hes e List.mem_cons_self hf)) hgs
  exact hfold es hes (hnone n) h

theorem yields_singleton {e : Entry} {f : Filter} (h : Yields (e.filter stem nested) n f k) :
    Yields (filters stem nested [e]) n [f] k :=
  yields_bind.mpr ⟨f, k, h, yields_bind.mpr ⟨[], k, yields_pure.mpr ⟨rfl, rfl⟩,
    yields_pure.mpr ⟨rfl, rfl⟩⟩⟩

/-- Copies of an entry that takes no number have copies of its filter. -/
theorem yields_filters_replicate {e : Entry} {f : Filter}
    (h : Yields (e.filter stem nested) n f n) (count : Nat) :
    Yields (filters stem nested (List.replicate count e)) n (List.replicate count f) n := by
  induction count with
  | zero => exact yields_pure.mpr ⟨rfl, rfl⟩
  | succ count ih =>
    exact yields_bind.mpr ⟨f, n, h, yields_bind.mpr ⟨_, n, ih, yields_pure.mpr ⟨rfl, rfl⟩⟩⟩

end Entry

namespace Filter

/-! ### Conditions of filters that are put together -/

theorem conditions_all (fs : List Filter) : (all fs).conditions = fs.flatMap conditions := by
  -- The filter made so far varies along the list.
  have hfold : ∀ (fs : List Filter) (acc : Filter),
      (fs.foldl Filter.and acc).conditions = acc.conditions ++ fs.flatMap conditions := by
    intro fs
    induction fs with
    | nil => exact fun acc => (List.append_nil _).symm
    | cons f fs ih =>
      intro acc
      rw [List.foldl_cons, ih, List.flatMap_cons, ← List.append_assoc]
      rfl
  exact hfold fs none

theorem conditions_grouped (kind : Connective) (f : Filter) : (f.grouped kind).conditions
    = if f.conditions.isEmpty then [] else [.group kind f.conditions] := by
  unfold grouped
  split
  · next h => exact List.isEmpty_iff.mp h
  · rfl

/-- Filters that join nothing join nothing together. -/
theorem joins_all_eq_empty {fs : List Filter} (h : ∀ f ∈ fs, f.joins = .empty) :
    (all fs).joins = .empty := by
  have hfold : ∀ (fs : List Filter) (acc : Filter), acc.joins = .empty →
      (∀ f ∈ fs, f.joins = .empty) → (fs.foldl Filter.and acc).joins = .empty := by
    intro fs
    induction fs with
    | nil => exact fun acc hacc _ => hacc
    | cons f fs ih =>
      intro acc hacc hall
      rw [List.forall_mem_cons] at hall
      refine ih _ ?_ hall.2
      show acc.joins.union f.joins = .empty
      rw [hacc, hall.1]
      rfl
  exact hfold fs none rfl h

/-! ### Filters of entries -/

/-- The filter of entries is made of the filters of its members, numbered from zero on. -/
theorem yields_of_ofEntries {es : List Entry} {f : Filter} (h : ofEntries es = .ok f) :
    ∃ fs k, Yields (Entry.filters defaultStem false es) 0 fs k ∧ f = all fs := by
  have hyields : Yields ((Entry.filters defaultStem false es).map all) 0 f
      (ofEntriesFrom defaultStem es 0).2 := Prod.ext h rfl
  obtain ⟨fs, hfs, rfl⟩ := yields_map.mp hyields
  exact ⟨fs, _, hfs, rfl⟩

theorem ofEntries_of_yields {es : List Entry} {fs : List Filter} {k : Nat}
    (h : Yields (Entry.filters defaultStem false es) 0 fs k) : ofEntries es = .ok (all fs) := by
  have hmap : Yields ((Entry.filters defaultStem false es).map all) 0 (all fs) k :=
    yields_map.mpr ⟨fs, h, rfl⟩
  exact congrArg Prod.fst hmap

end Filter

end GraphIndex
