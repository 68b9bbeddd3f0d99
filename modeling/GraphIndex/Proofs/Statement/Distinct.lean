import GraphIndex.Statement.Meaning
import Mathlib.Data.List.Nodup

/-!
# Members without repetition

`distinct` keeps the members of a list (`mem_distinct`), each once (`nodup_distinct`). Of a list in
which every member of another is repeated some number of times it leaves those that occur at all
(`distinct_flatMap`).
-/

namespace GraphIndex

variable {α : Type} [DecidableEq α]

@[simp]
theorem mem_distinct {a : α} {l : List α} : a ∈ distinct l ↔ a ∈ l := by
  induction l with
  | nil => exact Iff.rfl
  | cons b l ih =>
    rw [distinct, List.mem_cons, List.mem_filter, List.mem_cons, ih, decide_eq_true_iff]
    constructor
    · rintro (h | ⟨h, -⟩)
      · exact Or.inl h
      · exact Or.inr h
    · intro h
      by_cases hab : a = b
      · exact Or.inl hab
      · exact Or.inr ⟨h.resolve_left hab, hab⟩

theorem nodup_distinct (l : List α) : (distinct l).Nodup := by
  induction l with
  | nil => exact List.nodup_nil
  | cons b l ih =>
    rw [distinct, List.nodup_cons]
    refine ⟨fun h => ?_, ih.filter _⟩
    exact of_decide_eq_true (List.mem_filter.mp h).2 rfl

theorem distinct_append_singleton (l : List α) (a : α) :
    distinct (l ++ [a]) = if a ∈ l then distinct l else distinct l ++ [a] := by
  induction l with
  | nil => rfl
  | cons b l ih =>
    rw [List.cons_append, distinct, ih, distinct]
    by_cases hab : a = b
    · subst hab
      split_ifs <;> simp_all
    · by_cases hmem : a ∈ l
      · simp [hab, hmem]
      · simp [hab, hmem]

/-- A member that does not occur elsewhere is dropped once for all. -/
theorem filter_distinct_append {a : α} {as l : List α} (has : ∀ b ∈ as, b = a) (ha : a ∉ l) :
    (distinct (as ++ l)).filter (· ≠ a) = distinct l := by
  induction as with
  | nil =>
    refine List.filter_eq_self.mpr fun b hb => decide_eq_true fun hba => ha ?_
    rw [← hba]
    exact mem_distinct.mp hb
  | cons b as ih =>
    rw [List.forall_mem_cons] at has
    obtain ⟨rfl, has⟩ := has
    rw [List.cons_append, distinct, List.filter_cons_of_neg (by simp), List.filter_filter]
    simp only [Bool.and_self]
    exact ih has

theorem distinct_flatMap {l : List α} (hl : l.Nodup) (g : α → List α)
    (hg : ∀ a ∈ l, ∀ b ∈ g a, b = a) :
    distinct (l.flatMap g) = l.filter fun a => !(g a).isEmpty := by
  induction l with
  | nil => rfl
  | cons a l ih =>
    rw [List.nodup_cons] at hl
    rw [List.forall_mem_cons] at hg
    have hrest := ih hl.2 hg.2
    rw [List.flatMap_cons]
    cases hga : g a with
    | nil =>
      rw [List.nil_append, hrest, List.filter_cons_of_neg (by rw [hga]; simp)]
    | cons b bs =>
      -- All of `g a` is `a` itself, which occurs in no other part.
      have hbs := hg.1
      rw [hga, List.forall_mem_cons] at hbs
      obtain ⟨rfl, hbs⟩ := hbs
      have hnot : b ∉ l.flatMap g := by
        intro h
        obtain ⟨c, hc, hbc⟩ := List.mem_flatMap.mp h
        exact hl.1 (hg.2 c hc b hbc ▸ hc)
      rw [List.cons_append, distinct, filter_distinct_append hbs hnot, hrest,
        List.filter_cons_of_pos (by rw [hga]; simp)]

end GraphIndex
