import GraphIndex.Proofs.Number.Exact
import GraphIndex.Proofs.Store.Sorting

/-!
# The order of all values

Whatever the store can hold is sorted by a key in a linear order: nulls, then numbers by their
value, then texts (`Datum.isSortKey_order_of_isStorable`). It holds every double but a NaN, which is
stored as null. Sorting by a key keeps the order of members with one key, so that it makes no
difference whether members are left out before or after (`IsSortKey.filter_mergeSort`).
-/

namespace GraphIndex

/-! ### Sorting and leaving out -/

namespace IsSortKey

variable {α β : Type} [LinearOrder α] {l : List β} {cmp : β → β → Ordering} {key : β → α}

theorem mergeSort_eq (h : IsSortKey l cmp key) :
    (l.mergeSort fun a b => cmp a b != .gt) = l.mergeSort fun a b => decide (key a ≤ key b) := by
  have hmap : (l.mergeSort fun a b => cmp a b != .gt).map id
      = (l.map id).mergeSort fun a b => decide (key a ≤ key b) :=
    List.map_mergeSort fun a ha b hb => h.ne_gt_eq_decide ha hb
  rwa [List.map_id, List.map_id] at hmap

/-- A list in order is cut at one place only into members that are not above a key and others. -/
theorem append_inj_of_le {a : β} {l₁ l₂ k₁ k₂ : List β} (h : l₁ ++ l₂ = k₁ ++ k₂)
    (hl₁ : ∀ b ∈ l₁, ¬ key a ≤ key b) (hl₂ : ∀ b ∈ l₂, key a ≤ key b)
    (hk₁ : ∀ b ∈ k₁, ¬ key a ≤ key b) (hk₂ : ∀ b ∈ k₂, key a ≤ key b) : l₁ = k₁ ∧ l₂ = k₂ := by
  have htake : ∀ {m₁ m₂ : List β}, (∀ b ∈ m₁, ¬ key a ≤ key b) → (∀ b ∈ m₂, key a ≤ key b) →
      (m₁ ++ m₂).filter (fun b => ¬ key a ≤ key b) = m₁ := by
    intro m₁ m₂ h₁ h₂
    rw [List.filter_append, List.filter_eq_self.mpr fun b hb => decide_eq_true (h₁ b hb),
      List.filter_eq_nil_iff.mpr fun b hb => by simpa using h₂ b hb, List.append_nil]
  have hfirst : l₁ = k₁ := by rw [← htake hl₁ hl₂, h, htake hk₁ hk₂]
  subst hfirst
  exact ⟨rfl, List.append_cancel_left h⟩

/-- Leaving members out and sorting by keys can be done in any order. -/
theorem filter_mergeSort_key (p : β → Bool) (l : List β) :
    (l.mergeSort fun a b => decide (key a ≤ key b)).filter p
      = (l.filter p).mergeSort fun a b => decide (key a ≤ key b) := by
  have htrans : ∀ a b c : β, decide (key a ≤ key b) = true → decide (key b ≤ key c) = true →
      decide (key a ≤ key c) = true := fun a b c hab hbc =>
    decide_eq_true ((of_decide_eq_true hab).trans (of_decide_eq_true hbc))
  have htotal : ∀ a b : β,
      (decide (key a ≤ key b) || decide (key b ≤ key a)) = true := fun a b => by
    simpa using le_total (key a) (key b)
  induction l with
  | nil => simp
  | cons a l ih =>
    obtain ⟨l₁, l₂, hcons, hl, hbefore⟩ := List.mergeSort_cons htrans htotal a l
    have hsorted := List.pairwise_mergeSort htrans htotal (a :: l)
    rw [hcons, List.pairwise_append, List.pairwise_cons] at hsorted
    rw [hl, List.filter_append] at ih
    rw [hcons, List.filter_append, List.filter_cons, List.filter_cons]
    by_cases hp : p a = true
    · obtain ⟨k₁, k₂, hcons', hk, hbefore'⟩ := List.mergeSort_cons htrans htotal a (l.filter p)
      have hsorted' := List.pairwise_mergeSort htrans htotal (a :: l.filter p)
      rw [hcons', List.pairwise_append, List.pairwise_cons] at hsorted'
      -- Both lists have `a` behind the smaller keys and before all others.
      have hsmall : ∀ b ∈ l₁.filter p, ¬ key a ≤ key b := fun b hb => by
        simpa using hbefore b (List.mem_filter.mp hb).1
      have hsmall' : ∀ b ∈ k₁, ¬ key a ≤ key b := fun b hb => by simpa using hbefore' b hb
      obtain ⟨rfl, rfl⟩ := append_inj_of_le (ih.trans hk) hsmall
        (fun b hb => of_decide_eq_true (hsorted.2.1.1 b (List.mem_filter.mp hb).1)) hsmall'
        (fun b hb => of_decide_eq_true (hsorted'.2.1.1 b hb))
      rw [if_pos hp, if_pos hp, hcons']
    · rw [if_neg hp, if_neg hp, ih]

theorem filter_mergeSort (h : IsSortKey l cmp key) (p : β → Bool) :
    (l.mergeSort fun a b => cmp a b != .gt).filter p
      = (l.filter p).mergeSort fun a b => cmp a b != .gt := by
  rw [h.mergeSort_eq, filter_mergeSort_key, (h.mono (List.filter_subset_self l)).mergeSort_eq]

end IsSortKey

/-! ### Doubles in order -/

namespace Binary64

variable {x y : Binary64}

/-- The value of a double; the infinite ones stand before and behind all others. -/
def extendedValue (x : Binary64) : ℤ ×ₗ ℚ :=
  if x.isInfinite then toLex (if x.isNegative then -1 else 1, 0) else toLex (0, x.value)

/-- Integers compare as the numbers do of which they are multiples. -/
theorem compare_of_mul {a b : Int} {v w c : ℚ} (hc : 0 < c) (ha : (a : ℚ) = v * c)
    (hb : (b : ℚ) = w * c) : Ord.compare a b = Ord.compare v w := by
  rcases lt_trichotomy v w with h | h | h
  · rw [compare_lt_iff_lt.mpr h, compare_lt_iff_lt, ← Int.cast_lt (R := ℚ), ha, hb]
    exact mul_lt_mul_of_pos_right h hc
  · rw [compare_eq_iff_eq.mpr h, compare_eq_iff_eq, ← Int.cast_inj (α := ℚ), ha, hb, h]
  · rw [compare_gt_iff_gt.mpr h, compare_gt_iff_gt, ← Int.cast_lt (R := ℚ), ha, hb]
    exact mul_lt_mul_of_pos_right h hc

theorem compare?_eq (hx : x.isNaN = false) (hy : y.isNaN = false) :
    x.compare? y = some (Ord.compare x.extendedValue y.extendedValue) := by
  unfold compare? extendedValue
  rw [hx, hy]
  -- Infinities lie outside all finite values, and these are compared over a common denominator.
  cases x.isInfinite with
  | true =>
    cases y.isInfinite with
    | true => cases x.isNegative <;> cases y.isNegative <;> rfl
    | false => cases x.isNegative <;> rfl
  | false =>
    cases y.isInfinite with
    | true => cases y.isNegative <;> rfl
    | false =>
      refine congrArg some (compare_of_mul (v := x.value) (w := y.value)
        (mul_pos x.denominator_cast_pos y.denominator_cast_pos) ?_ ?_)
      · push_cast
        rw [signedNumerator_eq, mul_assoc]
      · push_cast
        rw [signedNumerator_eq, mul_assoc, mul_comm (y.denominator : ℚ)]

theorem compareInt?_eq (hx : x.isNaN = false) (i : Int) :
    compareInt? i x = some (Ord.compare (toLex ((0 : ℤ), (i : ℚ))) x.extendedValue) := by
  unfold compareInt? extendedValue
  rw [hx]
  cases x.isInfinite with
  | true => cases x.isNegative <;> rfl
  | false =>
    refine congrArg some (compare_of_mul x.denominator_cast_pos ?_ x.signedNumerator_eq)
    push_cast
    rfl

end Binary64

namespace Datum

/-- Values that the store can hold: every double but a NaN. -/
def IsStorable : Datum → Prop
  | real x => x.isNaN = false
  | _ => True

/-- Where a value stands in the order: nulls come first, then numbers, then texts. -/
def orderKey : Datum → ℕ ×ₗ (ℤ ×ₗ ℚ) ×ₗ String
  | null => toLex (0, toLex (toLex (0, 0), ""))
  | integer i => toLex (1, toLex (toLex (0, (i.toInt : ℚ)), ""))
  | real x => toLex (1, toLex (x.extendedValue, ""))
  | text s => toLex (2, toLex (toLex (0, 0), s))

/-- Among numbers only the values count. -/
theorem compare_numbers (k k' : ℤ ×ₗ ℚ) :
    Ord.compare (toLex ((1 : ℕ), toLex (k, ""))) (toLex ((1 : ℕ), toLex (k', "")))
      = Ord.compare k k' := by
  show (Ord.compare k k').then .eq = _
  rw [Ordering.then_eq]

theorem order_eq_compare_orderKey {d e : Datum} (hd : d.IsStorable) (he : e.IsStorable) :
    d.order e = Ord.compare d.orderKey e.orderKey := by
  cases d with
  | null => cases e <;> rfl
  | text s =>
    cases e with
    | text t => exact textOrder_eq_compare s t
    | _ => rfl
  | integer i =>
    cases e with
    | integer j =>
      have hone : (0 : ℚ) < 1 := one_pos
      refine Eq.trans ?_ (compare_numbers _ _).symm
      exact Binary64.compare_of_mul hone (mul_one _).symm (mul_one _).symm
    | real x =>
      refine Eq.trans ?_ (compare_numbers _ _).symm
      show (Binary64.compareInt? i.toInt x).getD .eq = _
      rw [Binary64.compareInt?_eq he, Option.getD_some]
    | _ => rfl
  | real x =>
    cases e with
    | integer j =>
      refine Eq.trans ?_ (compare_numbers _ _).symm
      show ((Binary64.compareInt? j.toInt x).getD .eq).swap = _
      rw [Binary64.compareInt?_eq hd, Option.getD_some]
      exact Std.OrientedOrd.eq_swap.symm
    | real y =>
      refine Eq.trans ?_ (compare_numbers _ _).symm
      show (x.compare? y).getD .eq = _
      rw [Binary64.compare?_eq hd he, Option.getD_some]
    | _ => rfl

theorem isSortKey_order_of_isStorable {l : List Datum} (hl : ∀ d ∈ l, d.IsStorable) :
    IsSortKey l order orderKey :=
  .of_compare fun d hd e he => order_eq_compare_orderKey (hl d hd) (hl e he)

end Datum

end GraphIndex
