import GraphIndex.Proofs.Statement.Texts
import GraphIndex.Statement.Limits

/-!
# Statements of one selection

Whether a statement is accepted depends on its selection and on the number of its values. So all
pages of a query are accepted if one of them is (`Statement.isAccepted_offset_iff`), and a
statement is accepted with one that joins more or binds more (`Statement.IsAccepted.of_prefix`).
-/

namespace GraphIndex

open Piece

/-! ### Heights and entries of lists -/

theorem le_foldl_height (hs : List Nat) (h : Nat) :
    h ≤ hs.foldl (fun before h => max before h + 1) h := by
  induction hs generalizing h with
  | nil => exact Nat.le_refl h
  | cons n hs ih => exact Nat.le_trans (by omega) (ih (max h n + 1))

/-- Operands that come later make a tree no lower. -/
theorem chainHeight_le_append (hs hs' : List Nat) : chainHeight hs ≤ chainHeight (hs ++ hs') := by
  cases hs with
  | nil => exact Nat.zero_le _
  | cons h hs =>
    rw [List.cons_append, chainHeight, chainHeight, List.foldl_append]
    exact le_foldl_height hs' _

/-- A tree is no higher than its highest operand by more than the number of operands. -/
theorem chainHeight_le {hs : List Nat} {m : Nat} (h : ∀ n ∈ hs, n ≤ m) :
    chainHeight hs ≤ m + hs.length := by
  have hfold : ∀ (hs : List Nat) (h k : Nat), (∀ n ∈ hs, n ≤ m) → h ≤ m + k →
      hs.foldl (fun before h => max before h + 1) h ≤ m + k + hs.length := by
    intro hs
    induction hs with
    | nil => exact fun h k _ hle => hle
    | cons n hs ih =>
      intro h k hall hle
      rw [List.forall_mem_cons] at hall
      have hrest := ih (max h n + 1) (k + 1) hall.2 (by omega)
      rw [List.length_cons]
      exact Nat.le_trans hrest (by omega)
  cases hs with
  | nil => exact Nat.zero_le _
  | cons n hs =>
    rw [List.forall_mem_cons] at h
    have hle := hfold hs n 0 h.2 h.1
    rw [chainHeight, List.length_cons]
    omega

/-- Two entries wait for the greatest operand at most. -/
theorem chainEntries_le {ns : List Nat} {m : Nat} (h : ∀ n ∈ ns, n ≤ m) :
    chainEntries ns ≤ m + 2 := by
  have hfold : ∀ (ns : List Nat) (most : Nat), (∀ n ∈ ns, n ≤ m) → most ≤ m + 2 →
      ns.foldl (fun most n => max most (n + 2)) most ≤ m + 2 := by
    intro ns
    induction ns with
    | nil => exact fun _ _ hle => hle
    | cons n ns ih =>
      intro most hall hle
      rw [List.forall_mem_cons] at hall
      have hmost : max most (n + 2) ≤ m + 2 := by omega
      exact ih _ hall.2 hmost
  cases ns with
  | nil => exact Nat.zero_le _
  | cons n ns =>
    rw [List.forall_mem_cons] at h
    exact hfold ns n h.2 (by omega)

namespace Condition

theorem heights_eq_map (cs : List Condition) : heights cs = cs.map height := by
  induction cs with
  | nil => rfl
  | cons c cs ih => rw [heights, ih, List.map_cons]

theorem listEntries_eq_map (cs : List Condition) : listEntries cs = cs.map entries := by
  induction cs with
  | nil => rfl
  | cons c cs ih => rw [listEntries, ih, List.map_cons]

/-- Where no condition holds a nested query, no tree is added to others. -/
theorem nestedHeights_eq_zero {cs : List Condition} (h : ∀ c ∈ cs, c.nestedHeight = 0) :
    nestedHeights cs = 0 := by
  induction cs with
  | nil => rfl
  | cons c cs ih =>
    rw [List.forall_mem_cons] at h
    rw [nestedHeights, h.1, ih h.2, Nat.max_self]

theorem haveShortPatterns_eq_true {cs : List Condition} (h : ∀ c ∈ cs, c.hasShortPatterns = true) :
    haveShortPatterns cs = true := by
  induction cs with
  | nil => rfl
  | cons c cs ih =>
    rw [List.forall_mem_cons] at h
    rw [haveShortPatterns, h.1, ih h.2, Bool.and_self]

/-- The height of several conditions that must all hold. -/
theorem chainHeight_heights_le {cs : List Condition} {m : Nat} (h : ∀ c ∈ cs, c.height ≤ m) :
    chainHeight (heights cs) ≤ m + cs.length := by
  rw [heights_eq_map]
  refine Nat.le_trans (chainHeight_le (m := m) ?_) (Nat.le_of_eq (by rw [List.length_map]))
  exact List.forall_mem_map.mpr h

theorem chainEntries_listEntries_le {cs : List Condition} {m : Nat}
    (h : ∀ c ∈ cs, c.entries ≤ m) : chainEntries (listEntries cs) ≤ m + 2 := by
  rw [listEntries_eq_map]
  exact chainEntries_le (List.forall_mem_map.mpr h)

end Condition

/-! ### Values of statements -/

theorem valuesOf_append (ps qs : List Piece) : valuesOf (ps ++ qs) = valuesOf ps ++ valuesOf qs :=
  List.filterMap_append

@[simp] theorem valuesOf_text_cons (s : String) (ps : List Piece) :
    valuesOf (text s :: ps) = valuesOf ps := rfl

theorem valuesOf_joined (separator : String) (parts : List (List Piece)) :
    valuesOf (joined separator parts) = parts.flatMap valuesOf := by
  induction parts with
  | nil => rfl
  | cons ps parts ih =>
    cases parts with
    | nil => rw [joined, List.flatMap_singleton]
    | cons qs parts =>
      show valuesOf (ps ++ text separator :: joined separator (qs :: parts)) = _
      rw [valuesOf_append, valuesOf_text_cons, ih]
      rfl

namespace Condition

/-- Conditions bind their values one after the other. -/
theorem valuesOf_joined_listPieces (separator : String) (cs : List Condition) :
    valuesOf (joined separator (listPieces cs)) = cs.flatMap fun c => valuesOf c.pieces := by
  rw [valuesOf_joined, listPieces_eq_map, List.flatMap_map]

theorem valuesOf_group (kind : Connective) (members : List Condition) :
    valuesOf (group kind members).pieces = members.flatMap fun c => valuesOf c.pieces := by
  rw [pieces, valuesOf_text_cons, valuesOf_append, valuesOf_joined_listPieces, valuesOf_text_cons]
  exact List.append_nil _

end Condition

namespace Selection

/-- The values that are bound in what the rows are taken from and in what must hold of them. -/
def values (s : Selection) : List Datum := valuesOf s.pieces

theorem values_eq (s : Selection) : s.values
    = (s.joins.joins.flatMap fun j => valuesOf j.pieces) ++ valuesOf s.filterPieces := by
  unfold values pieces JoinSet.pieces
  rw [valuesOf_text_cons, valuesOf_append, valuesOf_text_cons, valuesOf_joined, List.flatMap_map]

/-- More joins bind no fewer values. -/
theorem length_values_le {s t : Selection} (hconditions : s.conditions = t.conditions)
    (hjoins : s.joins.joins <+: t.joins.joins) : s.values.length ≤ t.values.length := by
  obtain ⟨rest, hrest⟩ := hjoins
  have hfilter : s.filterPieces = t.filterPieces := by
    unfold filterPieces
    rw [hconditions]
  rw [values_eq, values_eq, ← hrest, List.flatMap_append, hfilter]
  simp only [List.length_append]
  omega

end Selection

/-- An order binds the name of a custom field at most. -/
theorem SortTerm.length_values_le (term : SortTerm) : (valuesOf term.pieces).length ≤ 1 := by
  cases term with
  | column => exact Nat.zero_le 1
  | parentName => exact Nat.zero_le 1
  | field => exact Nat.le_refl 1

/-- The values of a page are those of its selection and of its order, its limit and its offset. -/
theorem PageStatement.length_values (s : PageStatement) :
    s.values.length = s.selection.values.length + (valuesOf s.sortBy.pieces).length + 2 := by
  unfold values pieces Selection.values
  simp only [valuesOf_text_cons, valuesOf_append, List.length_append]
  rfl

/-- The values of a statement for groups are those of its keys, of its selection and its limit. -/
theorem GroupStatement.length_values (s : GroupStatement) : s.values.length
    = (valuesOf (keyPieces 0 s.keys)).length + s.selection.values.length + 1 := by
  unfold values pieces Selection.values
  simp only [valuesOf_text_cons, valuesOf_append, List.length_append]
  rfl

/-! ### Accepted statements -/

namespace Selection

variable {s t : Selection}

theorem height_of_joinless (hjoins : s.joins = .empty) :
    s.height = chainHeight (Condition.heights s.conditions)
      + Condition.nestedHeights s.conditions := by
  unfold height heights
  rw [hjoins]
  congr 1
  cases s.conditions <;> rfl

theorem values_of_joinless (hjoins : s.joins = .empty) :
    s.values = s.conditions.flatMap fun c => valuesOf c.pieces := by
  rw [values_eq, hjoins]
  unfold filterPieces
  cases hconditions : s.conditions with
  | nil => rfl
  | cons c cs => exact Condition.valuesOf_joined_listPieces _ _

/-- More joins make no tree lower. -/
theorem height_le (hconditions : s.conditions = t.conditions)
    (hjoins : s.joins.joins <+: t.joins.joins) : s.height ≤ t.height := by
  obtain ⟨rest, hrest⟩ := hjoins
  unfold height heights
  rw [hconditions, ← hrest, List.map_append, ← List.append_assoc]
  exact Nat.add_le_add_right (chainHeight_le_append _ _) _

end Selection

namespace Statement

variable {s t : Statement}

/-- **A smaller statement**: one with the same conditions, with a part of the joins and no more
values is within the limits if the larger one is. -/
theorem IsPrepared.of_prefix (h : t.IsPrepared)
    (hconditions : s.selection.conditions = t.selection.conditions)
    (hjoins : s.selection.joins.joins <+: t.selection.joins.joins)
    (hvalues : s.values.length ≤ t.values.length) : s.IsPrepared where
  tables := Nat.le_trans (Nat.succ_le_succ hjoins.length_le) h.tables
  values := Nat.le_trans hvalues h.values
  height := Nat.le_trans (Selection.height_le hconditions hjoins) h.height
  entries := by
    have hle := h.entries
    unfold Selection.entries at hle ⊢
    rwa [hconditions]

theorem IsAccepted.of_prefix (h : t.IsAccepted)
    (hconditions : s.selection.conditions = t.selection.conditions)
    (hjoins : s.selection.joins.joins <+: t.selection.joins.joins)
    (hvalues : s.values.length ≤ t.values.length) : s.IsAccepted where
  toIsPrepared := h.toIsPrepared.of_prefix hconditions hjoins hvalues
  patterns := by
    rw [hconditions]
    exact h.patterns

/-- Statements of one selection with equally many values are within the limits together. -/
theorem isPrepared_iff_of_selection_eq (hvalues : s.values.length = t.values.length)
    (hselection : s.selection = t.selection) : s.IsPrepared ↔ t.IsPrepared := by
  have hconditions := congrArg Selection.conditions hselection
  have hjoins := congrArg (fun selection : Selection => selection.joins.joins) hselection
  have hsub := List.prefix_rfl (l := s.selection.joins.joins)
  exact ⟨fun h => h.of_prefix hconditions.symm (hjoins ▸ hsub) (Nat.le_of_eq hvalues.symm),
    fun h => h.of_prefix hconditions (hjoins ▸ hsub) (Nat.le_of_eq hvalues)⟩

theorem isAccepted_iff_of_selection_eq (hvalues : s.values.length = t.values.length)
    (hselection : s.selection = t.selection) : s.IsAccepted ↔ t.IsAccepted := by
  rw [isAccepted_iff, isAccepted_iff, isPrepared_iff_of_selection_eq hvalues hselection, hselection]

/-- All pages of a query bind equally many values. -/
theorem length_values_offset (p : PageStatement) (offset : Int64) :
    (page { p with offset := offset }).values.length = (page p).values.length := by
  show (PageStatement.values { p with offset := offset }).length = p.values.length
  rw [PageStatement.length_values, PageStatement.length_values]

theorem isPrepared_offset_iff (p : PageStatement) (offset : Int64) :
    (page { p with offset := offset }).IsPrepared ↔ (page p).IsPrepared :=
  isPrepared_iff_of_selection_eq (length_values_offset p offset) rfl

theorem isAccepted_offset_iff (p : PageStatement) (offset : Int64) :
    (page { p with offset := offset }).IsAccepted ↔ (page p).IsAccepted :=
  isAccepted_iff_of_selection_eq (length_values_offset p offset) rfl

/-- Nodes can be counted where they can be grouped. -/
theorem IsAccepted.count {g : GroupStatement} (h : (groups g).IsAccepted) {selection : Selection}
    (hconditions : selection.conditions = g.selection.conditions)
    (hjoins : selection.joins.joins <+: g.selection.joins.joins) :
    (Statement.count selection).IsAccepted := by
  refine IsAccepted.of_prefix (s := .count selection) h hconditions hjoins ?_
  have hle := Selection.length_values_le hconditions hjoins
  have hvalues := g.length_values
  show selection.values.length ≤ g.values.length
  omega

end Statement

end GraphIndex
