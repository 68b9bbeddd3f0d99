import GraphIndex.Proofs.Statement.Scope

/-!
# Rows that joins bring together

`Join.choices` lists the rows that a join sets beside the rows at hand. For joins that read only
what is declared before them (`WellScoped`), the rows at hand after all joins are exactly those in
which every join has one of its choices: `fits_of_mem_extendAll` and `exists_mem_extendAll`.
-/

namespace GraphIndex

open Scope

/-! ### One join -/

namespace Join

variable (store : Store) (j : Join)

/-- The rows of the table that meet the conditions of a join. -/
def partners (σ : Scope) : List Row :=
  (store.rows j.source.table).filter fun row => Condition.allTrue store (j.source.bind σ row) j.on

/-- The rows that a join sets beside the rows at hand; a left join without partners sets nulls. -/
def choices (σ : Scope) : List Row :=
  match j.kind with
  | .inner => j.partners store σ
  | .left => if (j.partners store σ).isEmpty then [.missing] else j.partners store σ

theorem extend_eq_map_choices (σ : Scope) :
    j.extend store σ = (j.choices store σ).map (j.source.bind σ) := by
  have hpartners : ((store.rows j.source.table).map (j.source.bind σ)).filter
      (fun s => Condition.allTrue store s j.on) = (j.partners store σ).map (j.source.bind σ) := by
    rw [List.filter_map]
    rfl
  unfold Join.extend choices
  simp only [hpartners]
  cases j.kind with
  | inner => rfl
  | left =>
    by_cases h : (j.partners store σ).isEmpty = true
    · rw [List.isEmpty_map, if_pos h, if_pos h]
      rfl
    · rw [List.isEmpty_map, if_neg h, if_neg h]

theorem mem_partners {σ : Scope} {row : Row} :
    row ∈ j.partners store σ ↔ row ∈ store.rows j.source.table ∧
      Condition.allTrue store (j.source.bind σ row) j.on = true := by
  unfold partners
  rw [List.mem_filter]

theorem mem_choices_of_left (hleft : j.kind = .left) {σ : Scope} {row : Row} :
    row ∈ j.choices store σ ↔
      row ∈ j.partners store σ ∨ j.partners store σ = [] ∧ row = .missing := by
  unfold choices
  rw [hleft]
  cases hpartners : j.partners store σ with
  | nil => simp
  | cons row' rows => simp

/-- The aliases that the conditions of a join read besides its own. -/
def names : List Alias := (Condition.listNames j.on).filter (· ≠ j.source.name)

variable {store j}

theorem partners_congr {σ τ : Scope} (h : Agree j.names σ τ) :
    j.partners store σ = j.partners store τ := by
  unfold partners
  refine List.filter_congr fun row _ => ?_
  exact Condition.allTrue_congr (j.source.agree_bind row h)

theorem choices_congr {σ τ : Scope} (h : Agree j.names σ τ) :
    j.choices store σ = j.choices store τ := by
  unfold choices
  rw [partners_congr h]

variable (store j)

/-- The row under the alias of a join is one of its choices. -/
def Fits (σ : Scope) : Prop := σ.row j.source.name ∈ j.choices store σ

variable {store j}

end Join

/-! ### Joins one after the other -/

/-- Every join has an alias of its own and reads, besides its own row, only what is declared before
it. -/
def WellScoped : List Alias → List Join → Prop
  | _, [] => True
  | declared, j :: js =>
    j.source.name ∉ declared ∧ j.names ⊆ declared ∧ WellScoped (j.source.name :: declared) js

/-- The aliases of joins. -/
def joinNames (js : List Join) : List Alias := js.map fun j => j.source.name

variable {store : Store}

theorem mem_extendAll (js : List Join) (scopes : List Scope) (σ : Scope) :
    σ ∈ extendAll store js scopes ↔ ∃ τ ∈ scopes, σ ∈ extendAll store js [τ] := by
  induction js generalizing scopes with
  | nil => simp [extendAll]
  | cons j js ih =>
    have hcons : ∀ ss : List Scope,
        extendAll store (j :: js) ss = extendAll store js (ss.flatMap (j.extend store)) :=
      fun ss => rfl
    rw [hcons, ih]
    -- `τ` is a scope before the first join, `τ'` one right after it.
    constructor
    · rintro ⟨τ', hτ', hσ⟩
      obtain ⟨τ, hτ, hext⟩ := List.mem_flatMap.mp hτ'
      refine ⟨τ, hτ, ?_⟩
      rw [hcons, ih]
      exact ⟨τ', List.mem_flatMap.mpr ⟨τ, List.mem_singleton_self _, hext⟩, hσ⟩
    · rintro ⟨τ, hτ, hσ⟩
      rw [hcons, ih] at hσ
      obtain ⟨τ', hτ', hσ'⟩ := hσ
      obtain ⟨τ₁, hτ₁, hext⟩ := List.mem_flatMap.mp hτ'
      rw [List.mem_singleton.mp hτ₁] at hext
      exact ⟨τ', List.mem_flatMap.mpr ⟨τ, hτ, hext⟩, hσ'⟩

/-- After one more join in front, the rows at hand come from one of its choices. -/
theorem mem_extendAll_cons (j : Join) (js : List Join) (σ₀ σ : Scope) :
    σ ∈ extendAll store (j :: js) [σ₀] ↔
      ∃ row ∈ j.choices store σ₀, σ ∈ extendAll store js [j.source.bind σ₀ row] := by
  have hcons : extendAll store (j :: js) [σ₀] = extendAll store js (j.extend store σ₀) := by
    show extendAll store js ([σ₀].flatMap (j.extend store)) = _
    rw [List.flatMap_cons, List.flatMap_nil, List.append_nil]
  rw [hcons, mem_extendAll, Join.extend_eq_map_choices]
  simp only [List.mem_map, exists_exists_and_eq_and]

/-- **Soundness of joining**: what is declared keeps its rows, and every join has one of its
choices. -/
theorem fits_of_mem_extendAll {declared : List Alias} {js : List Join} {σ₀ σ : Scope}
    (hscoped : WellScoped declared js) (hσ : σ ∈ extendAll store js [σ₀]) :
    Agree declared σ σ₀ ∧ ∀ j ∈ js, j.Fits store σ := by
  induction js generalizing declared σ₀ with
  | nil =>
    have hnil : σ = σ₀ := List.mem_singleton.mp hσ
    rw [hnil]
    exact ⟨fun _ _ => rfl, fun _ h => absurd h List.not_mem_nil⟩
  | cons j js ih =>
    obtain ⟨hnew, hnames, hrest⟩ := hscoped
    obtain ⟨row, hrow, hσ'⟩ := (mem_extendAll_cons j js σ₀ σ).mp hσ
    obtain ⟨hagree, hfits⟩ := ih hrest hσ'
    -- The alias of the join is new, so that binding it changes no declared row.
    have hdeclared : Agree declared σ σ₀ := by
      intro a ha
      have hne : a ≠ j.source.name := fun h => hnew (h ▸ ha)
      rw [hagree a (List.mem_cons_of_mem _ ha), Source.row_bind_of_ne _ _ _ hne]
    refine ⟨hdeclared, fun j' hj' => ?_⟩
    rcases List.mem_cons.mp hj' with rfl | hj'
    · unfold Join.Fits
      rw [hagree _ List.mem_cons_self, Source.row_bind_self,
        Join.choices_congr (hdeclared.mono hnames)]
      exact hrow
    · exact hfits j' hj'

/-- **Completeness of joining**: rows in which every join has one of its choices are among the rows
at hand. -/
theorem exists_mem_extendAll {declared : List Alias} {js : List Join} {σ₀ τ : Scope}
    (hscoped : WellScoped declared js) (hdeclared : Agree declared σ₀ τ)
    (hfits : ∀ j ∈ js, j.Fits store τ) :
    ∃ σ ∈ extendAll store js [σ₀], Agree (joinNames js ++ declared) σ τ := by
  induction js generalizing declared σ₀ with
  | nil => exact ⟨σ₀, List.mem_singleton_self _, hdeclared⟩
  | cons j js ih =>
    obtain ⟨hnew, hnames, hrest⟩ := hscoped
    -- The join reads declared rows only, and these are the same in `σ₀` and `τ`.
    have hrow : τ.row j.source.name ∈ j.choices store σ₀ := by
      rw [Join.choices_congr (hdeclared.mono hnames)]
      exact hfits j List.mem_cons_self
    have hbound : Agree (j.source.name :: declared)
        (j.source.bind σ₀ (τ.row j.source.name)) τ := by
      intro a ha
      by_cases h : a = j.source.name
      · rw [h, Source.row_bind_self]
      · rw [Source.row_bind_of_ne _ _ _ h]
        exact hdeclared a ((List.mem_cons.mp ha).resolve_left h)
    obtain ⟨σ, hσ, hagree⟩ := ih hrest hbound fun j' hj' => hfits j' (List.mem_cons_of_mem _ hj')
    refine ⟨σ, (mem_extendAll_cons j js σ₀ σ).mpr ⟨_, hrow, hσ⟩, hagree.mono ?_⟩
    intro a ha
    simp only [joinNames, List.map_cons, List.cons_append, List.mem_cons, List.mem_append] at ha ⊢
    tauto

end GraphIndex
