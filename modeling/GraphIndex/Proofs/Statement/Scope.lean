import GraphIndex.Statement.Meaning
import Mathlib.Data.List.Basic

/-!
# What conditions read

`Expr.names` and `Condition.names` list the aliases whose rows an expression or a condition reads
from the rows at hand; a nested query hides its own alias. Rows under other aliases do not matter:
`Expr.value_congr` and `Condition.truth_congr`.
-/

namespace GraphIndex

/-! ### Rows of a scope -/

namespace Scope

/-- Two scopes have the same rows under all of the given aliases. -/
def Agree (names : List Alias) (σ τ : Scope) : Prop := ∀ a ∈ names, σ.row a = τ.row a

theorem Agree.mono {names names' : List Alias} {σ τ : Scope} (h : Agree names' σ τ)
    (hsub : names ⊆ names') : Agree names σ τ :=
  fun a ha => h a (hsub ha)

theorem Agree.symm {names : List Alias} {σ τ : Scope} (h : Agree names σ τ) : Agree names τ σ :=
  fun a ha => (h a ha).symm

theorem row_cons (a b : Alias) (row : Row) (σ : Scope) :
    Scope.row ((a, row) :: σ) b = if b = a then row else σ.row b := by
  unfold Scope.row
  rw [List.lookup_cons]
  by_cases h : b = a
  · rw [beq_iff_eq.mpr h, if_pos h]
    rfl
  · rw [beq_eq_false_iff_ne.mpr h, if_neg h]

/-- Rows that are given by a function of their aliases. -/
theorem row_map (rows : Alias → Row) {names : List Alias} {a : Alias} (h : a ∈ names) :
    Scope.row (names.map fun b => (b, rows b)) a = rows a := by
  induction names with
  | nil => exact absurd h List.not_mem_nil
  | cons b names ih =>
    rw [List.map_cons, row_cons]
    by_cases hab : a = b
    · rw [if_pos hab, hab]
    · rw [if_neg hab]
      exact ih ((List.mem_cons.mp h).resolve_left hab)

end Scope

namespace Source

variable (s : Source) (σ : Scope) (row : Row)

@[simp]
theorem row_bind_self : (s.bind σ row).row s.name = row := by
  rw [Source.bind, Scope.row_cons, if_pos rfl]

theorem row_bind_of_ne {a : Alias} (h : a ≠ s.name) : (s.bind σ row).row a = σ.row a := by
  rw [Source.bind, Scope.row_cons, if_neg h]

/-- Scopes that agree up to the alias of a source agree once a row is bound to it. -/
theorem agree_bind {names : List Alias} {σ τ : Scope}
    (h : Scope.Agree (names.filter (· ≠ s.name)) σ τ) :
    Scope.Agree names (s.bind σ row) (s.bind τ row) := by
  intro a ha
  by_cases hs : a = s.name
  · rw [hs, row_bind_self, row_bind_self]
  · rw [row_bind_of_ne s σ row hs, row_bind_of_ne s τ row hs]
    exact h a (List.mem_filter.mpr ⟨ha, decide_eq_true hs⟩)

end Source

/-! ### Aliases of expressions and conditions -/

/-- The aliases that an expression reads. -/
def Expr.names : Expr → List Alias
  | column source _ => [source]
  | bound _ | quoted _ | number _ => []
  | cast e _ | orText e _ | date _ e | parens e => e.names
  | plus e d | divide e d | concat e d => e.names ++ d.names

namespace Condition

mutual

/-- The aliases that a condition reads of the rows at hand. -/
def names : Condition → List Alias
  | compare left _ right => left.names ++ right.names
  | like e _ | glob _ e _ | isNull e | isNotNull e => e.names
  | .exists _ source conditions => (listNames conditions).filter (· ≠ source.name)
  | group _ members => listNames members
  | not c => c.names

/-- The aliases that the conditions of a list read. -/
def listNames : List Condition → List Alias
  | [] => []
  | c :: rest => c.names ++ listNames rest

end

end Condition

/-! ### Only the rows that are read matter -/

open Scope

theorem Expr.value_congr {σ τ : Scope} : ∀ {e : Expr}, Agree e.names σ τ → e.value σ = e.value τ
  | column source c, h => by
    have hrow : σ.row source = τ.row source := h source (List.mem_singleton_self _)
    simp only [value, hrow]
  | bound d, _ => by cases d <;> rfl
  | quoted _, _ => rfl
  | number _, _ => rfl
  | cast e _, h => by simp only [value, value_congr (e := e) h]
  | orText e _, h => by simp only [value, value_congr (e := e) h]
  | date _ e, h => by simp only [value, value_congr (e := e) h]
  | parens e, h => by simp only [value, value_congr (e := e) h]
  | plus e d, h => by
    have he : Agree e.names σ τ := h.mono (List.subset_append_left _ _)
    have hd : Agree d.names σ τ := h.mono (List.subset_append_right _ _)
    simp only [value, value_congr he, value_congr hd]
  | divide e d, h => by
    have he : Agree e.names σ τ := h.mono (List.subset_append_left _ _)
    have hd : Agree d.names σ τ := h.mono (List.subset_append_right _ _)
    simp only [value, value_congr he, value_congr hd]
  | concat e d, h => by
    have he : Agree e.names σ τ := h.mono (List.subset_append_left _ _)
    have hd : Agree d.names σ τ := h.mono (List.subset_append_right _ _)
    simp only [value, value_congr he, value_congr hd]

namespace Condition

mutual

theorem truth_congr {store : Store} {σ τ : Scope} :
    ∀ {c : Condition}, Agree c.names σ τ → c.truth store σ = c.truth store τ
  | compare left _ right, h => by
    have hl : Agree left.names σ τ := h.mono (List.subset_append_left _ _)
    have hr : Agree right.names σ τ := h.mono (List.subset_append_right _ _)
    simp only [truth, compareTruth, Expr.value_congr hl, Expr.value_congr hr]
  | like e _, h => by simp only [truth, Expr.value_congr (e := e) h]
  | glob _ e _, h => by simp only [truth, Expr.value_congr (e := e) h]
  | isNull e, h => by simp only [truth, Expr.value_congr (e := e) h]
  | isNotNull e, h => by simp only [truth, Expr.value_congr (e := e) h]
  | .exists _ source conditions, h => by
    -- The nested query binds its own alias, whatever row the scopes have there.
    have hrow : ∀ row, truths store (source.bind σ row) conditions
        = truths store (source.bind τ row) conditions :=
      fun row => truths_congr (source.agree_bind row h)
    simp only [truth, hrow]
  | group _ members, h => by
    have hmembers : Agree (listNames members) σ τ := h
    simp only [truth, truths_congr hmembers]
  | not c, h => by simp only [truth, truth_congr (c := c) h]

theorem truths_congr {store : Store} {σ τ : Scope} :
    ∀ {cs : List Condition}, Agree (listNames cs) σ τ → truths store σ cs = truths store τ cs
  | [], _ => rfl
  | c :: rest, h => by
    have hc : Agree c.names σ τ := h.mono (List.subset_append_left _ _)
    have hrest : Agree (listNames rest) σ τ := h.mono (List.subset_append_right _ _)
    rw [truths, truths, truth_congr hc, truths_congr hrest]

end

theorem allTrue_congr {store : Store} {σ τ : Scope} {cs : List Condition}
    (h : Agree (listNames cs) σ τ) : allTrue store σ cs = allTrue store τ cs := by
  rw [allTrue, allTrue, truths_congr h]

end Condition

end GraphIndex
