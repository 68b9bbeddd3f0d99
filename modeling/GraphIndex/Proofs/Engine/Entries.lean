import GraphIndex.Engine.Groups
import Mathlib.Data.List.Nodup

/-!
# Entries of groups

What is kept under keys is entered by one rule, at the place of a key that is there already or else
at the end (`enterAt`). `Groups.entries` lists the counts of an answer with their keys, whether they
are kept in one table or in tables of tables. Entering one count after the other keeps every key
single and loses no count: `Groups.ofRows_spec`.
-/

namespace GraphIndex

/-! ### Lists by keys -/

section

variable {β : Type} {key k : String} {new : β} {change : β → β} {table : List (String × β)}

/-- Changes what stands under a key; where there is nothing under it, something new is put at the
end. -/
def enterAt (key : String) (new : β) (change : β → β) : List (String × β) → List (String × β)
  | [] => [(key, new)]
  | (k, b) :: rest =>
    if k = key then (k, change b) :: rest else (k, b) :: enterAt key new change rest

theorem map_fst_enterAt : (enterAt key new change table).map (·.1)
    = if key ∈ table.map (·.1) then table.map (·.1) else table.map (·.1) ++ [key] := by
  induction table with
  | nil => rfl
  | cons row table ih =>
    obtain ⟨k, b⟩ := row
    rw [enterAt]
    by_cases hk : k = key
    · rw [if_pos hk, List.map_cons, List.map_cons, if_pos (by rw [hk]; exact List.mem_cons_self)]
    · rw [if_neg hk, List.map_cons, List.map_cons, ih]
      by_cases hmem : key ∈ table.map (·.1)
      · rw [if_pos hmem, if_pos (List.mem_cons_of_mem _ hmem)]
      · have hne : key ∉ k :: table.map (·.1) := by
          simp only [List.mem_cons, not_or]
          exact ⟨fun h => hk h.symm, hmem⟩
        rw [if_neg hmem, if_neg hne, List.cons_append]

theorem enterAt_ne_nil : enterAt key new change table ≠ [] := by
  cases table with
  | nil => exact List.cons_ne_nil _ _
  | cons row table =>
    rw [enterAt]
    split <;> exact List.cons_ne_nil _ _

/-- No key comes to stand twice. -/
theorem nodup_enterAt (h : (table.map (·.1)).Nodup) :
    ((enterAt key new change table).map (·.1)).Nodup := by
  rw [map_fst_enterAt]
  split
  · exact h
  · rename_i hkey
    rw [← List.concat_eq_append]
    exact h.concat hkey

theorem mem_enterAt {row : String × β} (h : row ∈ enterAt key new change table) :
    row ∈ table ∨ row = (key, new) ∨ ∃ b, (key, b) ∈ table ∧ row = (key, change b) := by
  induction table with
  | nil => exact Or.inr (Or.inl (List.mem_singleton.mp h))
  | cons row' table ih =>
    obtain ⟨k, b⟩ := row'
    rw [enterAt] at h
    split at h
    · rename_i hk
      subst hk
      rcases List.mem_cons.mp h with rfl | h
      · exact Or.inr (Or.inr ⟨b, List.mem_cons_self, rfl⟩)
      · exact Or.inl (List.mem_cons_of_mem _ h)
    · rcases List.mem_cons.mp h with rfl | h
      · exact Or.inl List.mem_cons_self
      · rcases ih h with hmem | hnew | ⟨b', hmem, heq⟩
        · exact Or.inl (List.mem_cons_of_mem _ hmem)
        · exact Or.inr (Or.inl hnew)
        · exact Or.inr (Or.inr ⟨b', List.mem_cons_of_mem _ hmem, heq⟩)

/-- What stands under each key afterwards. -/
theorem lookup_enterAt : (enterAt key new change table).lookup k
    = if k = key then some (((table.lookup key).map change).getD new) else table.lookup k := by
  have hself : (key == key) = true := beq_self_eq_true key
  induction table with
  | nil =>
    rw [enterAt, List.lookup_cons]
    by_cases hk : k = key
    · simp [hk]
    · simp [hk, beq_false_of_ne hk]
  | cons row table ih =>
    obtain ⟨k', b⟩ := row
    rw [enterAt]
    -- The first row has the key or it does not; then it may be the row looked up or not.
    by_cases hk' : k' = key
    · subst hk'
      rw [if_pos rfl]
      simp only [List.lookup_cons, hself, Option.map_some, Option.getD_some]
      by_cases hk : k = k'
      · simp [hk]
      · simp [hk, beq_false_of_ne hk]
    · rw [if_neg hk']
      simp only [List.lookup_cons, ih, beq_false_of_ne (Ne.symm hk')]
      by_cases hk : k = k'
      · simp [hk, hk']
      · simp [beq_false_of_ne hk]

/-- Among different keys each has what stands with it. -/
theorem lookup_eq_some_iff_mem (h : (table.map (·.1)).Nodup) {b : β} :
    table.lookup k = some b ↔ (k, b) ∈ table := by
  induction table with
  | nil => simp
  | cons row table ih =>
    obtain ⟨k', b'⟩ := row
    rw [List.map_cons, List.nodup_cons] at h
    rw [List.lookup_cons, List.mem_cons, Prod.mk.injEq]
    by_cases hk : k = k'
    · subst hk
      have hnot : (k, b) ∉ table := fun hmem => h.1 (List.mem_map.mpr ⟨_, hmem, rfl⟩)
      simp [hnot, eq_comm]
    · simp [beq_false_of_ne hk, hk, ih h.2]

theorem lookup_eq_of_perm {table' : List (String × β)} (h : (table.map (·.1)).Nodup)
    (hperm : table.Perm table') : table'.lookup k = table.lookup k := by
  refine Option.ext fun b => ?_
  rw [lookup_eq_some_iff_mem h, lookup_eq_some_iff_mem ((hperm.map _).nodup_iff.mp h),
    hperm.mem_iff]

/-- Among different keys only that of the entry is concerned. -/
theorem enterAt_eq (h : (table.map (·.1)).Nodup) : enterAt key new change table
    = if key ∈ table.map (·.1) then
        table.map fun row => if row.1 = key then (row.1, change row.2) else row
      else table ++ [(key, new)] := by
  induction table with
  | nil => rfl
  | cons row table ih =>
    obtain ⟨k, b⟩ := row
    rw [List.map_cons, List.nodup_cons] at h
    rw [enterAt]
    by_cases hk : k = key
    · subst hk
      -- The key occurs once, so that nothing changes behind its row.
      have hrest : table.map (fun row => if row.1 = k then (row.1, change row.2) else row)
          = table := by
        refine (List.map_congr_left fun row hrow => if_neg fun hk => ?_).trans (List.map_id _)
        have hmem : row.1 ∈ table.map (·.1) := List.mem_map_of_mem hrow
        exact h.1 (hk ▸ hmem)
      simp [hrest]
    · rw [if_neg hk, ih h.2]
      split_ifs <;> simp_all

end

/-! ### Entries of groups -/

namespace Groups

/-- The counts of a table, each with its outer and its inner key. -/
def entriesOf (table : List (String × Counts)) : List (List String × Int) :=
  table.flatMap fun (outer, counts) => counts.map fun (inner, n) => ([outer, inner], n)

/-- The counts of all groups with their keys. -/
def entries : Groups → List (List String × Int)
  | flat counts => counts.map fun (key, n) => ([key], n)
  | nested table => entriesOf table

/-- No outer key occurs twice, and no inner key twice under one outer key. -/
def TableKeyed (table : List (String × Counts)) : Prop :=
  (table.map (·.1)).Nodup ∧ ∀ row ∈ table, (row.2.map (·.1)).Nodup

/-- No group occurs twice. -/
def Keyed : Groups → Prop
  | flat counts => (counts.map (·.1)).Nodup
  | nested table => TableKeyed table

section

variable {outer inner : String} {n : Int} {table : List (String × Counts)}

theorem entriesOf_cons (row : String × Counts) (table : List (String × Counts)) :
    entriesOf (row :: table)
      = row.2.map (fun (inner, n) => ([row.1, inner], n)) ++ entriesOf table :=
  List.flatMap_cons

/-- Entering a count adds one entry and moves no other to other keys. -/
theorem entriesOf_enter : (entriesOf (enter outer inner n table)).Perm
    (([outer, inner], n) :: entriesOf table) := by
  induction table with
  | nil => exact List.Perm.refl _
  | cons row table ih =>
    obtain ⟨k, counts⟩ := row
    rw [enter]
    split
    · rename_i hk
      subst hk
      rw [entriesOf_cons, entriesOf_cons, List.map_append, List.append_assoc]
      exact List.perm_middle
    · rw [entriesOf_cons, entriesOf_cons]
      exact (ih.append_left _).trans List.perm_middle

/-- Counts are entered under their outer keys, behind those that are there already. -/
theorem enter_eq_enterAt (outer inner : String) (n : Int) (table : List (String × Counts)) :
    enter outer inner n table = enterAt outer [(inner, n)] (· ++ [(inner, n)]) table := by
  induction table with
  | nil => rfl
  | cons row table ih => rw [enter, enterAt, ih]

theorem mem_keys_entriesOf {counts : Counts} (hrow : (outer, counts) ∈ table)
    (hinner : inner ∈ counts.map (·.1)) : [outer, inner] ∈ (entriesOf table).map (·.1) := by
  obtain ⟨entry, hentry, rfl⟩ := List.mem_map.mp hinner
  refine List.mem_map.mpr ⟨([outer, entry.1], entry.2), ?_, rfl⟩
  exact List.mem_flatMap.mpr ⟨_, hrow, List.mem_map.mpr ⟨entry, hentry, rfl⟩⟩

/-- Entering a count under new keys repeats no key. -/
theorem TableKeyed.enter (h : TableKeyed table)
    (hnew : [outer, inner] ∉ (entriesOf table).map (·.1)) :
    TableKeyed (enter outer inner n table) := by
  rw [enter_eq_enterAt]
  refine ⟨nodup_enterAt h.1, fun row hrow => ?_⟩
  · rcases mem_enterAt hrow with hmem | rfl | ⟨counts, hmem, rfl⟩
    · exact h.2 row hmem
    · exact List.nodup_singleton _
    · have hinner : inner ∉ counts.map (·.1) := fun hinner => hnew (mem_keys_entriesOf hmem hinner)
      rw [List.map_append, List.map_singleton, ← List.concat_eq_append]
      exact (h.2 _ hmem).concat hinner

end

/-- Along two dimensions the size of the groups is the number of pairs of keys. -/
theorem size_eq_length (groups : Groups) : groups.size = groups.entries.length := by
  cases groups with
  | flat counts => exact (List.length_map _).symm
  | nested table =>
    induction table with
    | nil => rfl
    | cons row table ih =>
      have hcons : (nested (row :: table)).size = row.2.length + (nested table).size := rfl
      rw [hcons, ih]
      show _ = (entriesOf (row :: table)).length
      rw [entriesOf_cons, List.length_append, List.length_map]
      rfl

/-! ### Groups of rows -/

variable {rows : List GroupRow}

theorem entries_flatOf (hkeys : ∀ g ∈ rows, g.keys.length = 1) :
    entries (flat (flatOf rows)) = rows.map fun g => (g.keys, (g.count : Int)) := by
  show (rows.map _).map _ = _
  rw [List.map_map]
  refine List.map_congr_left fun g hg => ?_
  obtain ⟨k, hk⟩ := List.length_eq_one_iff.mp (hkeys g hg)
  show ([g.keys.headD noneKey], (g.count : Int)) = _
  rw [hk]
  rfl

/-- Enters the count of a row with two keys. -/
def enterRow (table : List (String × Counts)) (g : GroupRow) : List (String × Counts) :=
  enter (g.keys.headD noneKey) ((g.keys.drop 1).headD noneKey) g.count table

theorem nestedOf_eq_foldl (rows : List GroupRow) : nestedOf rows = rows.foldl enterRow [] := rfl

/-- Entering rows with two keys one after the other keeps a table keyed and loses nothing. -/
theorem foldl_enterRow (hkeys : ∀ g ∈ rows, g.keys.length = 2) :
    ∀ table : List (String × Counts), TableKeyed table →
      ((entriesOf table).map (·.1) ++ rows.map (·.keys)).Nodup →
      TableKeyed (rows.foldl enterRow table) ∧ (entriesOf (rows.foldl enterRow table)).Perm
        (entriesOf table ++ rows.map fun g => (g.keys, (g.count : Int))) := by
  induction rows with
  | nil =>
    intro table htable _
    rw [List.map_nil, List.append_nil]
    exact ⟨htable, List.Perm.refl _⟩
  | cons g rows ih =>
    intro table htable hnodup
    rw [List.forall_mem_cons] at hkeys
    obtain ⟨outer, inner, hg⟩ := List.length_eq_two.mp hkeys.1
    have henter : enterRow table g = enter outer inner g.count table := by
      unfold enterRow
      rw [hg]
      rfl
    have hperm : (entriesOf (enterRow table g)).Perm
        ((g.keys, (g.count : Int)) :: entriesOf table) := by
      rw [henter, hg]
      exact entriesOf_enter
    -- The keys of `g` are new to the table, since all keys are different.
    have hmiddle : ((g.keys :: (entriesOf table).map (·.1)) ++ rows.map (·.keys)).Nodup := by
      rw [List.map_cons] at hnodup
      exact (List.perm_middle.nodup_iff).mp hnodup
    have hnew : [outer, inner] ∉ (entriesOf table).map (·.1) := by
      intro hmem
      rw [← hg] at hmem
      exact (List.nodup_cons.mp hmiddle).1 (List.mem_append_left _ hmem)
    have htable' : TableKeyed (enterRow table g) := by
      rw [henter]
      exact htable.enter hnew
    have hnodup' : ((entriesOf (enterRow table g)).map (·.1) ++ rows.map (·.keys)).Nodup :=
      (((hperm.map (·.1)).append_right _).nodup_iff).mpr hmiddle
    obtain ⟨hkeyed, hentries⟩ := ih hkeys.2 _ htable' hnodup'
    rw [List.foldl_cons]
    refine ⟨hkeyed, hentries.trans ((hperm.append_right _).trans ?_)⟩
    rw [List.map_cons]
    exact List.perm_middle.symm

/-- **Groups of an answer**: groups with different keys stand once each, and none gets lost. -/
theorem ofRows_spec {dimensions : Nat} (hdimensions : dimensions = 1 ∨ dimensions = 2)
    (hkeys : ∀ g ∈ rows, g.keys.length = dimensions) (hnodup : (rows.map (·.keys)).Nodup) :
    (ofRows dimensions rows).Keyed ∧
      (ofRows dimensions rows).entries.Perm (rows.map fun g => (g.keys, (g.count : Int))) := by
  rcases hdimensions with rfl | rfl
  · have hentries := entries_flatOf hkeys
    refine ⟨?_, hentries ▸ List.Perm.refl _⟩
    have hsingle : rows.map (·.keys) = ((flatOf rows).map (·.1)).map fun k => [k] := by
      have hkeysOf := congrArg (List.map (·.1)) hentries
      simp only [entries, List.map_map] at hkeysOf ⊢
      exact hkeysOf.symm
    rw [hsingle] at hnodup
    exact hnodup.of_map
  · have hempty : TableKeyed [] := ⟨List.nodup_nil, fun row hrow => absurd hrow List.not_mem_nil⟩
    unfold ofRows
    rw [if_neg (by decide), nestedOf_eq_foldl]
    exact foldl_enterRow hkeys [] hempty hnodup

end Groups

end GraphIndex
