import GraphIndex.Statement.Meaning
import Mathlib.Data.List.Forall2
import Mathlib.Data.String.Basic

/-!
# Truth of conditions

A list of conditions selects rows only where all of them are true. `Connective.fold_mono` says that
"and" and "or" are monotone in truth: a group stays true when members become true, whatever else is
unknown. `Datum.compare_ofText?` is the comparison of two texts, either of which may be null.
-/

namespace GraphIndex

/-! ### "And" and "or" -/

/-- Where the first truth value is true, so is the second. -/
def Entails (a b : Option Bool) : Prop := a = some true → b = some true

theorem Entails.refl (a : Option Bool) : Entails a a := fun h => h

theorem all_true_of_entails {as bs : List (Option Bool)} (h : List.Forall₂ Entails as bs)
    (has : ∀ a ∈ as, a = some true) : ∀ b ∈ bs, b = some true := by
  induction h with
  | nil => exact fun b hb => absurd hb List.not_mem_nil
  | cons hhead _ ih =>
    rw [List.forall_mem_cons] at has ⊢
    exact ⟨hhead has.1, ih has.2⟩

namespace Connective

theorem fold_cons (kind : Connective) (b : Option Bool) (bs : List (Option Bool)) :
    kind.fold (b :: bs) = kind.combine b (kind.fold bs) := rfl

theorem combine_all_eq_true_iff (a b : Option Bool) :
    all.combine a b = some true ↔ a = some true ∧ b = some true := by
  rcases a with _ | _ | _ <;> rcases b with _ | _ | _ <;> decide

theorem combine_any_eq_true_iff (a b : Option Bool) :
    any.combine a b = some true ↔ a = some true ∨ b = some true := by
  rcases a with _ | _ | _ <;> rcases b with _ | _ | _ <;> decide

theorem fold_all_eq_true_iff (bs : List (Option Bool)) :
    all.fold bs = some true ↔ ∀ b ∈ bs, b = some true := by
  induction bs with
  | nil => simp [fold, unit]
  | cons b bs ih => rw [fold_cons, combine_all_eq_true_iff, ih, List.forall_mem_cons]

theorem combine_mono (kind : Connective) {a a' b b' : Option Bool} (ha : Entails a a')
    (hb : Entails b b') : Entails (kind.combine a b) (kind.combine a' b') := by
  intro h
  cases kind with
  | all =>
    rw [combine_all_eq_true_iff] at h ⊢
    exact ⟨ha h.1, hb h.2⟩
  | any =>
    rw [combine_any_eq_true_iff] at h ⊢
    exact h.imp (fun h => ha h) (fun h => hb h)

/-- A group stays true when its members become true. -/
theorem fold_mono (kind : Connective) {bs cs : List (Option Bool)}
    (h : List.Forall₂ Entails bs cs) : Entails (kind.fold bs) (kind.fold cs) := by
  induction h with
  | nil => exact Entails.refl _
  | cons hhead _ ih =>
    rw [fold_cons, fold_cons]
    exact combine_mono kind hhead ih

/-- A group of members that are true or false is true or false. -/
theorem isSome_fold (kind : Connective) {bs : List (Option Bool)}
    (h : ∀ b ∈ bs, b.isSome = true) : (kind.fold bs).isSome = true := by
  induction bs with
  | nil => cases kind <;> rfl
  | cons b bs ih =>
    rw [List.forall_mem_cons] at h
    obtain ⟨x, hx⟩ := Option.isSome_iff_exists.mp h.1
    obtain ⟨y, hy⟩ := Option.isSome_iff_exists.mp (ih h.2)
    rw [fold_cons, hx, hy]
    cases kind <;> cases x <;> cases y <;> rfl

end Connective

/-! ### Lists of conditions -/

namespace Condition

variable (store : Store) (σ : Scope)

theorem truths_eq_map (cs : List Condition) : truths store σ cs = cs.map (truth store σ) := by
  induction cs with
  | nil => rfl
  | cons c cs ih => rw [truths, ih, List.map_cons]

theorem truths_append (cs ds : List Condition) :
    truths store σ (cs ++ ds) = truths store σ cs ++ truths store σ ds := by
  simp only [truths_eq_map, List.map_append]

theorem allTrue_iff (cs : List Condition) :
    allTrue store σ cs = true ↔ ∀ c ∈ cs, c.truth store σ = some true := by
  rw [allTrue, beq_iff_eq, Connective.fold_all_eq_true_iff, truths_eq_map, List.forall_mem_map]

theorem allTrue_pair_iff (c d : Condition) :
    allTrue store σ [c, d] = true ↔ c.truth store σ = some true ∧ d.truth store σ = some true := by
  rw [allTrue_iff, List.forall_mem_cons, List.forall_mem_singleton]

theorem allTrue_singleton_iff (c : Condition) :
    allTrue store σ [c] = true ↔ c.truth store σ = some true := by
  rw [allTrue_iff, List.forall_mem_singleton]

theorem allTrue_append_iff (cs ds : List Condition) :
    allTrue store σ (cs ++ ds) = true ↔
      allTrue store σ cs = true ∧ allTrue store σ ds = true := by
  simp only [allTrue_iff, List.forall_mem_append]

/-- A nested query is true, or false, by whether some row meets all of its conditions. -/
theorem truth_exists (holds : Bool) (source : Source) (cs : List Condition) :
    (Condition.exists holds source cs).truth store σ
      = some ((store.rows source.table).any
          (fun row => allTrue store (source.bind σ row) cs) == holds) := by
  rw [truth]
  rfl

end Condition

/-! ### Comparisons of texts -/

namespace Datum

/-- Texts are compared in the linear order of strings. -/
theorem textOrder_eq_compare (s t : String) : textOrder s t = Ord.compare s t := by
  unfold textOrder
  rcases lt_trichotomy s t with h | h | h
  · rw [if_pos h, compare_lt_iff_lt.mpr h]
  · rw [if_neg (by rw [h]; exact lt_irrefl t), if_pos h, compare_eq_iff_eq.mpr h]
  · rw [if_neg (lt_asymm h), if_neg (ne_of_gt h), compare_gt_iff_gt.mpr h]

theorem textOrder_eq_eq_iff (s t : String) : textOrder s t = .eq ↔ s = t := by
  rw [textOrder_eq_compare, compare_eq_iff_eq]

/-- The comparison of texts; it is unknown if one is missing. -/
theorem compare_ofText? {right : Option Affinity} (hright : right = none ∨ right = some .text)
    (a b : Option String) :
    compare (some .text) right (ofText? a) (ofText? b)
      = a.bind fun s => b.map fun t => textOrder s t := by
  rcases hright with rfl | rfl <;> rcases a with _ | s <;> rcases b with _ | t <;> rfl

end Datum

namespace Comparison

theorem equal_holds_textOrder (s t : String) :
    equal.holds (Datum.textOrder s t) = true ↔ s = t := by
  rw [← Datum.textOrder_eq_eq_iff]
  show (Datum.textOrder s t == .eq) = true ↔ _
  rw [beq_iff_eq]

end Comparison

end GraphIndex
