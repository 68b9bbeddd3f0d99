import GraphIndex.Number.Numeral
import Mathlib.Tactic.Ring

/-!
# Bounds of numerals

Digits denote a number below the power of ten of their count (`Numeral.value_lt`), and other
characters than digits are refused (`Numeral.int64?_of_not_isDigit`).
-/

namespace GraphIndex

namespace Numeral

theorem digitValue_le {c : Char} (h : c.isDigit = true) : digitValue c ≤ 9 := by
  unfold Char.isDigit at h
  rw [Bool.and_eq_true, decide_eq_true_eq, decide_eq_true_eq] at h
  have hle : c.toNat ≤ '9'.toNat := h.2
  unfold digitValue
  simp only [Char.reduceToNat] at hle ⊢
  omega

theorem digitValue_pos {c : Char} (hc : c.isDigit = true) (hne : c ≠ '0') :
    0 < digitValue c := by
  unfold Char.isDigit at hc
  rw [Bool.and_eq_true, decide_eq_true_eq, decide_eq_true_eq] at hc
  have hge : '0'.toNat ≤ c.toNat := hc.1
  have hchar : c.toNat ≠ '0'.toNat := fun h => hne (Char.toNat_inj.mp h)
  unfold digitValue
  omega

/-- So many digits denote a number below that power of ten. -/
theorem value_lt {ds : List Char} (h : ∀ c ∈ ds, c.isDigit = true) : value ds < 10 ^ ds.length := by
  -- From the left, with the number that the digits before denote.
  have hfrom : ∀ n : Nat,
      ds.foldl (fun n c => 10 * n + digitValue c) n < (n + 1) * 10 ^ ds.length := by
    induction ds with
    | nil =>
      intro n
      simp
    | cons c ds ih =>
      intro n
      rw [List.forall_mem_cons] at h
      have hdigit := digitValue_le h.1
      calc (c :: ds).foldl (fun n c => 10 * n + digitValue c) n
          < (10 * n + digitValue c + 1) * 10 ^ ds.length := ih h.2 _
        _ ≤ (10 * (n + 1)) * 10 ^ ds.length := by
          apply Nat.mul_le_mul_right
          omega
        _ = (n + 1) * 10 ^ (c :: ds).length := by
          rw [List.length_cons, pow_succ]
          ring
  have h0 := hfrom 0
  rwa [Nat.zero_add, Nat.one_mul] at h0

/-- Without a sign, what is not all digits is refused. -/
theorem int64?_of_not_isDigit {ds : List Char} (hsign : spanSign ds = (false, ds))
    (h : ¬ ∀ c ∈ ds, c.isDigit = true) : int64? ds = none := by
  have hall : ds.all Char.isDigit = false := by
    rw [← Bool.not_eq_true, List.all_eq_true]
    exact h
  unfold int64?
  rw [hsign]
  dsimp only
  rw [hall, Bool.and_false]
  rfl

end Numeral

end GraphIndex
