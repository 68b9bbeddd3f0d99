import GraphIndex.Proofs.Statement.Truth
import Mathlib.Data.List.Sort
import Mathlib.Data.Prod.Lex

/-!
# The order of values

`IsSortKey l cmp key` says that the members of a list compare as their keys in a linear order do;
such a list is sorted by `List.mergeSort` (`IsSortKey.pairwise_mergeSort`). Nulls, integers and
texts have keys (`Datum.isSortKey_order`). Doubles are left out, for a double and an integer may be
equal in order.
-/

namespace GraphIndex

/-! ### Comparisons by keys -/

/-- The members of a list compare as their keys do. -/
structure IsSortKey {α β : Type} [LinearOrder α] (l : List β) (cmp : β → β → Ordering)
    (key : β → α) : Prop where
  lt_iff : ∀ a ∈ l, ∀ b ∈ l, (cmp a b = .lt ↔ key a < key b)
  eq_iff : ∀ a ∈ l, ∀ b ∈ l, (cmp a b = .eq ↔ key a = key b)
  gt_iff : ∀ a ∈ l, ∀ b ∈ l, (cmp a b = .gt ↔ key b < key a)

namespace IsSortKey

variable {α α' β : Type} [LinearOrder α] [LinearOrder α'] {l : List β}
  {cmp cmp' : β → β → Ordering} {key : β → α} {key' : β → α'}

theorem mono {l' : List β} (h : IsSortKey l cmp key) (hsub : l' ⊆ l) : IsSortKey l' cmp key :=
  ⟨fun a ha b hb => h.lt_iff a (hsub ha) b (hsub hb),
    fun a ha b hb => h.eq_iff a (hsub ha) b (hsub hb),
    fun a ha b hb => h.gt_iff a (hsub ha) b (hsub hb)⟩

/-- The comparison of keys in their order. -/
theorem of_compare (h : ∀ a ∈ l, ∀ b ∈ l, cmp a b = Ord.compare (key a) (key b)) :
    IsSortKey l cmp key where
  lt_iff := by
    intro a ha b hb
    rw [h a ha b hb, compare_lt_iff_lt]
  eq_iff := by
    intro a ha b hb
    rw [h a ha b hb, compare_eq_iff_eq]
  gt_iff := by
    intro a ha b hb
    rw [h a ha b hb, compare_gt_iff_gt]

/-- The comparison of what a function reads off the members. -/
theorem comap {γ : Type} {f : γ → β} {l' : List γ} (h : IsSortKey (l'.map f) cmp key) :
    IsSortKey l' (fun a b => cmp (f a) (f b)) fun a => key (f a) :=
  ⟨fun _ ha _ hb => h.lt_iff _ (List.mem_map_of_mem ha) _ (List.mem_map_of_mem hb),
    fun _ ha _ hb => h.eq_iff _ (List.mem_map_of_mem ha) _ (List.mem_map_of_mem hb),
    fun _ ha _ hb => h.gt_iff _ (List.mem_map_of_mem ha) _ (List.mem_map_of_mem hb)⟩

/-- The comparison the other way round. -/
theorem swap (h : IsSortKey l cmp key) :
    IsSortKey l (fun a b => (cmp a b).swap) fun a => OrderDual.toDual (key a) where
  lt_iff := by
    intro a ha b hb
    rw [Ordering.swap_eq_lt, h.gt_iff a ha b hb, OrderDual.toDual_lt_toDual]
  eq_iff := by
    intro a ha b hb
    rw [Ordering.swap_eq_eq, h.eq_iff a ha b hb, OrderDual.toDual_inj]
  gt_iff := by
    intro a ha b hb
    rw [Ordering.swap_eq_gt, h.lt_iff a ha b hb, OrderDual.toDual_lt_toDual]

/-- One comparison, and another one where the first sees no difference. -/
theorem andThen (h : IsSortKey l cmp key) (h' : IsSortKey l cmp' key') :
    IsSortKey l (fun a b => (cmp a b).then (cmp' a b)) fun a => toLex (key a, key' a) where
  lt_iff := by
    intro a ha b hb
    rw [Ordering.then_eq_lt, h.lt_iff a ha b hb, h.eq_iff a ha b hb, h'.lt_iff a ha b hb,
      Prod.Lex.toLex_lt_toLex]
  eq_iff := by
    intro a ha b hb
    rw [Ordering.then_eq_eq, h.eq_iff a ha b hb, h'.eq_iff a ha b hb, toLex_inj, Prod.mk.injEq]
  gt_iff := by
    intro a ha b hb
    rw [Ordering.then_eq_gt, h.gt_iff a ha b hb, h.eq_iff a ha b hb, h'.gt_iff a ha b hb,
      Prod.Lex.toLex_lt_toLex]
    exact or_congr_right (and_congr_left fun _ => eq_comm)

theorem ne_gt_eq_decide (h : IsSortKey l cmp key) {a b : β} (ha : a ∈ l) (hb : b ∈ l) :
    (cmp a b != .gt) = decide (key a ≤ key b) := by
  rw [Bool.eq_iff_iff, bne_iff_ne, decide_eq_true_iff, ne_eq, h.gt_iff a ha b hb, not_lt]

/-- A list that compares by keys is sorted. -/
theorem pairwise_mergeSort (h : IsSortKey l cmp key) :
    (l.mergeSort fun a b => cmp a b != .gt).Pairwise fun a b => key a ≤ key b := by
  have hmap : (l.mergeSort fun a b => cmp a b != .gt).map key
      = (l.map key).mergeSort fun x y => decide (x ≤ y) :=
    List.map_mergeSort fun a ha b hb => h.ne_gt_eq_decide ha hb
  rw [← List.pairwise_map, hmap]
  refine (List.pairwise_mergeSort ?_ ?_ _).imp of_decide_eq_true
  · intro x y z hxy hyz
    exact decide_eq_true ((of_decide_eq_true hxy).trans (of_decide_eq_true hyz))
  · intro x y
    rw [Bool.or_eq_true, decide_eq_true_iff, decide_eq_true_iff]
    exact le_total x y

/-- Different members of a sorted list of different keys are in strict order. -/
theorem pairwise_lt_mergeSort (h : IsSortKey l cmp key) (hkeys : (l.map key).Nodup) :
    (l.mergeSort fun a b => cmp a b != .gt).Pairwise fun a b => cmp a b = .lt := by
  have hperm := List.mergeSort_perm l fun a b => cmp a b != .gt
  have hne : (l.mergeSort fun a b => cmp a b != .gt).Pairwise fun a b => key a ≠ key b := by
    rw [← List.pairwise_map]
    exact (hperm.map key).nodup_iff.mpr hkeys
  refine (h.pairwise_mergeSort.and hne).imp_of_mem fun ha hb hab => ?_
  exact (h.lt_iff _ (hperm.mem_iff.mp ha) _ (hperm.mem_iff.mp hb)).mpr (lt_of_le_of_ne hab.1 hab.2)

end IsSortKey

/-! ### Values that are not doubles -/

namespace Datum

/-- Values other than doubles. -/
def IsPlain : Datum → Prop
  | real _ => False
  | _ => True

theorem isPlain_ofText? (t : Option String) : (ofText? t).IsPlain := by
  cases t <;> trivial

theorem ofText?_inj {a b : Option String} : ofText? a = ofText? b ↔ a = b := by
  cases a <;> cases b <;> simp [ofText?]

/-- Where a value stands in the order: nulls come first, then integers, then texts. -/
def sortKey : Datum → ℕ ×ₗ ℤ ×ₗ String
  | integer i => toLex (1, toLex (i.toInt, ""))
  | text s => toLex (2, toLex (0, s))
  | _ => toLex (0, toLex (0, ""))

/-- Values that are not doubles compare as their keys do. -/
theorem order_eq_compare {d e : Datum} (hd : d.IsPlain) (he : e.IsPlain) :
    d.order e = Ord.compare d.sortKey e.sortKey := by
  cases d with
  | real x => exact absurd hd id
  | null =>
    cases e with
    | real x => exact absurd he id
    | _ => rfl
  | integer i =>
    cases e with
    | real x => exact absurd he id
    | integer j =>
      -- The empty texts of both keys are equal, so that the integers decide.
      show Ord.compare i.toInt j.toInt = (Ord.compare i.toInt j.toInt).then .eq
      rw [Ordering.then_eq]
    | _ => rfl
  | text s =>
    cases e with
    | real x => exact absurd he id
    | text t => exact textOrder_eq_compare s t
    | _ => rfl

theorem sortKey_inj {d e : Datum} (hd : d.IsPlain) (he : e.IsPlain) :
    d.sortKey = e.sortKey ↔ d = e := by
  cases d with
  | real x => exact absurd hd id
  | null =>
    cases e with
    | real x => exact absurd he id
    | _ => simp [sortKey]
  | integer i =>
    cases e with
    | real x => exact absurd he id
    | integer j => simp [sortKey, Int64.toInt_inj]
    | _ => simp [sortKey]
  | text s =>
    cases e with
    | real x => exact absurd he id
    | _ => simp [sortKey]

theorem order_eq_eq_iff {d e : Datum} (hd : d.IsPlain) (he : e.IsPlain) :
    d.order e = .eq ↔ d = e := by
  rw [order_eq_compare hd he, compare_eq_iff_eq, sortKey_inj hd he]

theorem isSortKey_order {l : List Datum} (hl : ∀ d ∈ l, d.IsPlain) :
    IsSortKey l order sortKey :=
  .of_compare fun d hd e he => order_eq_compare (hl d hd) (hl e he)

end Datum

end GraphIndex
