import GraphIndex.Proofs.Plan.JoinSets
import GraphIndex.Proofs.Query.Meaning
import GraphIndex.Proofs.Statement.Truth

/-!
# Truth of the conditions of clauses

What the conditions and nested queries that clauses turn into say about the rows at hand, in the
words of `NodeView` and `Operator`.
-/

namespace GraphIndex

/-! ### Blank values -/

namespace Datum

theorem order_text_eq_eq_iff (d : Datum) (s : String) : d.order (.text s) = .eq ↔ d = .text s := by
  cases d with
  | null => exact ⟨fun h => absurd h (by simp [order, rank]), fun h => absurd h (by simp)⟩
  | integer i => exact ⟨fun h => absurd h (by simp [order, rank]), fun h => absurd h (by simp)⟩
  | real x => exact ⟨fun h => absurd h (by simp [order, rank]), fun h => absurd h (by simp)⟩
  | text t =>
    show textOrder t s = .eq ↔ _
    rw [textOrder_eq_eq_iff, text.injEq]

theorem ofLeading_ne_text (n : NumericText.Leading) (s : String) : ofLeading n ≠ .text s := by
  unfold ofLeading ofReal
  split
  · simp
  · split <;> simp

/-- Only the empty text is turned into the empty text where numbers are preferred. -/
theorem preferNumber_eq_empty_iff (d : Datum) : d.preferNumber = .text "" ↔ d = .text "" := by
  cases d with
  | text s =>
    show (ofNumericText? s).getD (.text s) = .text "" ↔ _
    cases hn : ofNumericText? s with
    | none => rw [Option.getD_none]
    | some n =>
      rw [Option.getD_some]
      -- A text that was made a number is not empty, and a number is no text.
      have hs : s ≠ "" := by
        rintro rfl
        rw [show ofNumericText? "" = none by decide] at hn
        exact absurd hn (by simp)
      have hne : n ≠ .text "" := by
        unfold ofNumericText? at hn
        split at hn
        · split at hn
          · rw [← Option.some.inj hn]
            exact ofLeading_ne_text _ _
          · exact absurd hn (by simp)
        · exact absurd hn (by simp)
      simp only [hne, hs, Datum.text.injEq]
  | null => rfl
  | integer i => rfl
  | real x => rfl

/-- The comparison of a value of a column with the empty text. -/
theorem compare_empty {affinity : Affinity} {d : Datum}
    (hd : affinity = .text → ∃ t, d = .ofText? t) (hnull : d.isNull = false) :
    (compare (some affinity) none d (.text "")).map Comparison.equal.holds
      = some (d == .text "") := by
  by_cases haff : affinity = .text
  · obtain ⟨t, rfl⟩ := hd haff
    cases t with
    | none => exact absurd hnull (by decide)
    | some s =>
      rw [haff, show Datum.text "" = ofText? (some "") from rfl, compare_ofText? (Or.inl rfl)]
      show some (Comparison.equal.holds (textOrder s "")) = some (Datum.text s == .text "")
      rw [Option.some.injEq, Bool.eq_iff_iff, Comparison.equal_holds_textOrder, beq_iff_eq,
        text.injEq]
  · -- A column of numbers turns both sides into numbers where it can.
    have hprefer : ∀ e : Datum, e.prefer (some affinity) none = e.preferNumber := by
      intro e
      cases affinity with
      | text => exact absurd rfl haff
      | integer => rfl
      | real => rfl
    unfold compare
    rw [hnull, hprefer, hprefer, (preferNumber_eq_empty_iff (.text "")).mpr rfl]
    show some (d.preferNumber.order (.text "") == .eq) = some (d == .text "")
    rw [Option.some.injEq, Bool.eq_iff_iff, beq_iff_eq, beq_iff_eq, order_text_eq_eq_iff,
      preferNumber_eq_empty_iff]

end Datum

variable {store : Store} {σ : Scope}

/-! ### Conditions on one column -/

theorem Expr.value_bound (d : Datum) : (Expr.bound d).value σ = d.asBound := by
  cases d <;> rfl

namespace Operator

variable {a : Alias} {col : Column} {d : Datum}

theorem truth_blankCondition (hcell : (σ.row a).cell col = d)
    (hd : col.affinity = .text → ∃ t, d = .ofText? t) :
    (blankCondition (.column a col)).truth store σ = some (d.isNull || d == .text "") := by
  show Connective.any.fold [some ((σ.row a).cell col).isNull,
    (Datum.compare (some col.affinity) none ((σ.row a).cell col) (.text "")).map
      Comparison.equal.holds] = _
  rw [hcell]
  cases hnull : d.isNull with
  | true =>
    rw [Bool.true_or, Connective.fold_cons, Connective.combine_any_eq_true_iff]
    exact Or.inl rfl
  | false =>
    rw [Datum.compare_empty hd hnull, Bool.false_or]
    cases d == .text "" <;> rfl

/-- The condition of an operator on a column says what the operator says of its value. -/
theorem truth_valueCondition (hcell : (σ.row a).cell col = d)
    (hd : col.affinity = .text → ∃ t, d = .ofText? t) (v : Operand) (op : Operator) :
    (valueCondition (.column a col) false v op).truth store σ
      = op.columnTruth col.affinity v d := by
  cases op with
  | compare c =>
    show Condition.compareTruth σ (.column a col) c (.bound v.datum) = _
    unfold Condition.compareTruth
    rw [Expr.value_bound, Expr.value, hcell]
    rfl
  | contains =>
    show (((σ.row a).cell col).chars?.map _) = _
    rw [hcell]
    rfl
  | present =>
    show some (!((σ.row a).cell col).isNull) = _
    rw [hcell]
    rfl
  | missing => exact truth_blankCondition hcell hd

variable {t : Option String}

/-- The condition of a comparison on a column of texts, with the text of the operand. -/
theorem truth_textCondition (hcell : (σ.row a).cell col = .ofText? t)
    (haff : col.affinity = .text) (v : Operand) {op : Operator}
    (hop : op.isExistenceTest = false) :
    (valueCondition (.column a col) true v op).truth store σ
      = t.map fun s => op.textHolds v s := by
  cases op with
  | compare c =>
    show Condition.compareTruth σ (.column a col) c (.bound (.text v.asText)) = _
    unfold Condition.compareTruth
    rw [Expr.value_bound, Expr.value, hcell, show (Datum.text v.asText).asBound
      = .ofText? (some v.asText) from rfl]
    show (Datum.compare (some col.affinity) none (.ofText? t) (.ofText? (some v.asText))).map _ = _
    rw [haff, Datum.compare_ofText? (Or.inl rfl)]
    cases t <;> rfl
  | contains =>
    show (((σ.row a).cell col).chars?.map _) = _
    rw [hcell]
    cases t <;> rfl
  | present => exact absurd hop (by decide)
  | missing => exact absurd hop (by decide)

/-! ### Values of custom fields -/

/-- A text meets all the tests for a numeral just if it is one; null meets none. -/
theorem truth_numeralConditions (hcell : (σ.row a).cell col = .ofText? t) :
    (∀ c ∈ numeralConditions (.column a col), c.truth store σ = some true) ↔
      ∃ s, t = some s ∧ isNumeralText (Datum.untilNul s.toList) = true := by
  -- Every one of the conditions is a pattern that has to match or must not.
  have hglob : ∀ (fits : Bool) (p : Pattern),
      (Condition.glob fits (.column a col) p).truth store σ
        = t.map fun s => p.glob (Datum.untilNul s.toList) == fits := by
    intro fits p
    show (((σ.row a).cell col).chars?.map _) = _
    rw [hcell]
    cases t <;> rfl
  unfold numeralConditions isNumeralText
  simp only [List.forall_mem_cons, hglob, List.not_mem_nil, false_implies, implies_true, and_true]
  cases t with
  | none => simp
  | some s =>
    simp only [Option.map_some, Option.some.injEq, exists_eq_left', Bool.and_eq_true, beq_iff_eq,
      Bool.not_eq_true', and_assoc]

theorem truth_numericCondition {field : String} {c : Comparison} {v : Operand}
    {holds : Condition} (hcell : (σ.row a).cell col = .ofText? t)
    (h : numericCondition field (.column a col) c v = .ok holds) :
    holds.truth store σ = some true ↔
      ∃ s, t = some s ∧ isNumeralText (Datum.untilNul s.toList) = true
        ∧ c.numberHolds v s = true := by
  unfold numericCondition at h
  cases hnumber : v.number? with
  | none =>
    rw [hnumber] at h
    exact absurd h (by simp)
  | some number =>
    rw [hnumber] at h
    obtain rfl := Except.ok.inj h
    have hcompare : (Condition.compare (.cast (.column a col) .real) c (.bound number)).truth
        store σ = (Datum.compare (some .real) none ((Datum.ofText? t).cast .real)
          number.asBound).map c.holds := by
      show Condition.compareTruth σ (.cast (.column a col) .real) c (.bound number) = _
      unfold Condition.compareTruth
      rw [Expr.value_bound, Expr.value, Expr.value, hcell]
      rfl
    have hnull : (Datum.compare (some .real) none ((Datum.ofText? none).cast .real)
        number.asBound) = none := rfl
    -- First come the tests for a numeral, then the comparison.
    rw [Condition.truth, Connective.fold_all_eq_true_iff, Condition.truths_eq_map,
      List.forall_mem_map, List.forall_mem_append, List.forall_mem_singleton, hcompare,
      truth_numeralConditions hcell]
    unfold Comparison.numberHolds
    simp only [hnumber, Option.any_some]
    cases t with
    | none => simp
    | some s =>
      simp only [Option.some.injEq, exists_eq_left']
      refine and_congr_right fun _ => ?_
      rw [show Datum.ofText? (some s) = .text s from rfl]
      cases Datum.compare (some .real) none ((Datum.text s).cast .real) number.asBound with
      | none => simp
      | some o => simp

/-- The condition of a comparison on a value of a custom field. -/
theorem truth_fieldCondition {field : String} {v : Operand} {op : Operator} {holds : Condition}
    (hcell : (σ.row a).cell col = .ofText? t) (haff : col.affinity = .text)
    (hop : op.isExistenceTest = false)
    (h : fieldCondition field (.column a col) v op = .ok holds) :
    holds.truth store σ = some true ↔ ∃ s, t = some s ∧ op.valueHolds v s = true := by
  have htext : (valueCondition (.column a col) true v op).truth store σ = some true ↔
      ∃ s, t = some s ∧ op.textHolds v s = true := by
    rw [truth_textCondition hcell haff v hop, Option.map_eq_some_iff]
  cases op with
  | compare c =>
    unfold fieldCondition at h
    unfold valueHolds
    by_cases hc : c.isOrdering = true
    · simp only [if_pos hc] at h ⊢
      simp only [truth_numericCondition hcell h, Bool.and_eq_true]
    · simp only [if_neg hc] at h ⊢
      rw [← Except.ok.inj h]
      exact htext
  | contains =>
    rw [← Except.ok.inj h]
    exact htext
  | present => exact absurd hop (by decide)
  | missing => exact absurd hop (by decide)

end Operator

end GraphIndex
