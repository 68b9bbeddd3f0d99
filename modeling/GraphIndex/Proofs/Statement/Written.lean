import GraphIndex.Proofs.Statement.Slots

/-!
# The slots of statements

Which values conditions, joins and statements bind, in the order of their text and each with what is
written in front of its mark: `Condition.slots`, `Join.slots`, `PageStatement.slots`,
`GroupStatement.slots`. Where all texts are plain these are the slots of what is written
(`Condition.writes`, `Selection.writes` and so on).
-/

namespace GraphIndex

open Piece

/-! ### Conditions -/

namespace Condition

mutual

/-- The slots of a condition; a slot of a member of a group names no more than this member. -/
def slots : Condition → List Slot
  | compare left c right => slotsFrom "" (compare left c right).pieces
  | like e pattern => slotsFrom "" (like e pattern).pieces
  | glob fits e pattern => slotsFrom "" (glob fits e pattern).pieces
  | isNull e => slotsFrom "" (isNull e).pieces
  | isNotNull e => slotsFrom "" (isNotNull e).pieces
  | .exists _ _ conditions => listSlots conditions
  | group _ members => listSlots members
  | not c => c.slots

/-- The slots of conditions. -/
def listSlots : List Condition → List Slot
  | [] => []
  | c :: rest => c.slots ++ listSlots rest

end

theorem listSlots_append (cs ds : List Condition) :
    listSlots (cs ++ ds) = listSlots cs ++ listSlots ds := by
  induction cs with
  | nil => rfl
  | cons c cs ih => rw [List.cons_append, listSlots, listSlots, ih, List.append_assoc]

theorem listSlots_map_not (cs : List Condition) : listSlots (cs.map .not) = listSlots cs := by
  induction cs with
  | nil => rfl
  | cons c cs ih =>
    rw [List.map_cons, listSlots, listSlots, ih]
    rfl

theorem isInert_separator (kind : Connective) : isInert kind.separator = true := by
  cases kind <;> decide

/-- All texts of conditions are plain. -/
def ListPlain (cs : List Condition) : Prop := ∀ ps ∈ listPieces cs, Plain ps

theorem listPlain_cons {c : Condition} {cs : List Condition} :
    ListPlain (c :: cs) ↔ Plain c.pieces ∧ ListPlain cs := by
  unfold ListPlain
  rw [listPieces, List.forall_mem_cons]

theorem listPieces_append (cs ds : List Condition) :
    listPieces (cs ++ ds) = listPieces cs ++ listPieces ds := by
  induction cs with
  | nil => rfl
  | cons c cs ih => rw [List.cons_append, listPieces, listPieces, ih, List.cons_append]

theorem listPlain_append {cs ds : List Condition} :
    ListPlain (cs ++ ds) ↔ ListPlain cs ∧ ListPlain ds := by
  unfold ListPlain
  rw [listPieces_append, List.forall_mem_append]

/-- Conditions between two texts write what the conditions write. -/
theorem writes_enclosed {kind : Connective} {l : List (List Piece)} {slots : List (List Slot)}
    {s : String} (h : List.Forall₂ Writes l slots) (hs : isInert s = true) :
    Writes (Piece.text s :: (joined kind.separator l ++ [Piece.text ")"])) slots.flatten :=
  Writes.text_cons hs ((Writes.joined (isInert_separator kind) h).append_text (by decide))

mutual

/-- A condition of plain texts writes its slots. -/
theorem writes : ∀ {c : Condition}, Plain c.pieces → Writes c.pieces c.slots
  | compare _ _ _, h => Writes.of_plain h
  | like _ _, h => Writes.of_plain h
  | glob _ _ _, h => Writes.of_plain h
  | isNull _, h => Writes.of_plain h
  | isNotNull _, h => Writes.of_plain h
  | .exists holds source conditions, h => by
    rw [pieces, plain_text_cons, plain_append] at h
    obtain ⟨slots, hslots, heq⟩ := listWrites (plain_of_joined h.2.1)
    rw [Condition.slots, ← heq, pieces]
    exact writes_enclosed hslots h.1
  | group kind members, h => by
    rw [pieces, plain_text_cons, plain_append] at h
    obtain ⟨slots, hslots, heq⟩ := listWrites (plain_of_joined h.2.1)
    rw [Condition.slots, ← heq, pieces]
    exact writes_enclosed hslots h.1
  | not c, h => by
    rw [pieces, plain_text_cons, plain_append] at h
    rw [Condition.slots, pieces]
    exact Writes.text_cons h.1 ((writes h.2.1).append_text (by decide))

theorem listWrites : ∀ {cs : List Condition}, ListPlain cs →
    ∃ slots, List.Forall₂ Writes (listPieces cs) slots ∧ slots.flatten = listSlots cs
  | [], _ => ⟨[], .nil, rfl⟩
  | c :: cs, h => by
    rw [listPlain_cons] at h
    obtain ⟨slots, hslots, heq⟩ := listWrites h.2
    refine ⟨c.slots :: slots, .cons (writes h.1) hslots, ?_⟩
    rw [List.flatten_cons, heq, listSlots]

end

theorem writes_allPieces {cs : List Condition} (h : ListPlain cs) :
    Writes (allPieces cs) (listSlots cs) := by
  obtain ⟨slots, hslots, heq⟩ := listWrites h
  rw [← heq]
  exact Writes.joined (isInert_separator .all) hslots

end Condition

open Condition (listSlots ListPlain)

/-! ### Joins -/

/-- The slots of a join. -/
def Join.slots (j : Join) : List Slot := listSlots j.on

/-- The alias of a join and its conditions are plain. -/
structure Join.IsPlain (j : Join) : Prop where
  name : isInert j.source.name.name = true
  on : ListPlain j.on

theorem Table.isInert_name (t : Table) : isInert t.name = true := by
  cases t <;> decide

theorem Join.writes {j : Join} (h : j.IsPlain) : Writes j.pieces j.slots := by
  have htext : ∀ kind : String, isInert kind = true →
      isInert (kind ++ j.source.table.name ++ " " ++ j.source.name.name ++ " ON ") = true := by
    intro kind hkind
    have htable := isInert_append hkind j.source.table.isInert_name
    have hblank : isInert " " = true := by decide
    have hon : isInert " ON " = true := by decide
    exact isInert_append (isInert_append (isInert_append htable hblank) h.name) hon
  refine Writes.text_cons ?_ (Condition.writes_allPieces h.on)
  cases j.kind with
  | inner => exact htext _ (by decide)
  | left => exact htext _ (by decide)

namespace JoinSet

/-- The slots of joins. -/
def slots (s : JoinSet) : List Slot := s.joins.flatMap Join.slots

/-- All joins are plain. -/
def IsPlain (s : JoinSet) : Prop := ∀ j ∈ s.joins, j.IsPlain

theorem writes {s : JoinSet} (h : s.IsPlain) : Writes s.pieces s.slots := by
  have hjoins : ∀ js : List Join, (∀ j ∈ js, j.IsPlain) →
      List.Forall₂ Writes (js.map Join.pieces) (js.map Join.slots) := by
    intro js
    induction js with
    | nil => exact fun _ => .nil
    | cons j js ih =>
      intro hjs
      rw [List.forall_mem_cons] at hjs
      exact .cons (Join.writes hjs.1) (ih hjs.2)
  have hblank : isInert " " = true := by decide
  rw [slots, List.flatMap_def]
  exact Writes.joined hblank (hjoins s.joins h)

end JoinSet

/-! ### Selections -/

namespace Selection

/-- The slots of a selection: those of its joins, then those of its conditions. -/
def slots (s : Selection) : List Slot := s.joins.slots ++ listSlots s.conditions

/-- All texts of a selection are plain. -/
structure IsPlain (s : Selection) : Prop where
  joins : s.joins.IsPlain
  conditions : ListPlain s.conditions

theorem writes {s : Selection} (h : s.IsPlain) : Writes s.pieces s.slots := by
  have hfilter : Writes s.filterPieces (listSlots s.conditions) := by
    unfold filterPieces
    split
    · rename_i hempty
      rw [List.isEmpty_iff.mp hempty]
      exact Writes.nil
    · exact Writes.text_cons (by decide) (Condition.writes_allPieces h.conditions)
  have hblank : isInert " " = true := by decide
  exact Writes.text_cons (by decide)
    ((JoinSet.writes h.joins).append (Writes.text_cons hblank hfilter))

theorem writes_countPieces {s : Selection} (h : s.IsPlain) : Writes s.countPieces s.slots :=
  Writes.text_cons (by decide) (writes h)

end Selection

/-! ### Statements -/

/-- The slots of a sort key: that of the name of a field. -/
def SortTerm.slots : SortTerm → List Slot
  | field name => [⟨columnText .sortField .fieldName ++ " = ", .text name⟩]
  | _ => []

theorem SortTerm.writes (t : SortTerm) : Writes t.pieces t.slots := by
  cases t with
  | column c => exact Writes.text (by cases c <;> decide)
  | parentName => exact Writes.text (by decide)
  | field name =>
    have hrest : Writes [Piece.text (" ORDER BY " ++ columnText .sortField .fieldOrder
        ++ " LIMIT 1)")] [] := Writes.text (by decide)
    exact Writes.slot_cons (by decide) (by decide) hrest

namespace PageStatement

/-- The slots of a statement for a page. -/
def slots (s : PageStatement) : List Slot :=
  s.selection.slots ++ s.sortBy.slots
    ++ [⟨" LIMIT ", .integer s.limit⟩, ⟨" OFFSET ", .integer s.offset⟩]

theorem writes {s : PageStatement} (h : s.selection.IsPlain) : Writes s.pieces s.slots := by
  -- The text is put together from its end, since each mark is found by the text before it.
  have hbounds : Writes [Piece.text ((if s.descending then " DESC, " else " ASC, ") ++ nodeId
      ++ " ASC LIMIT "), Piece.slot (.integer s.limit), Piece.text " OFFSET ",
      Piece.slot (.integer s.offset)]
      [⟨" LIMIT ", .integer s.limit⟩, ⟨" OFFSET ", .integer s.offset⟩] := by
    have hoffset := Writes.slot_cons (v := .integer s.offset) (s := " OFFSET ") (by decide)
      (List.suffix_refl _) Writes.nil
    cases s.descending with
    | true => exact Writes.slot_cons (by decide) (by decide) hoffset
    | false => exact Writes.slot_cons (by decide) (by decide) hoffset
  have horder := Writes.text_cons (s := " ORDER BY ") (by decide) (s.sortBy.writes.append hbounds)
  have hpieces := Writes.text_cons (s := "SELECT DISTINCT " ++ ", ".intercalate
    (NodeColumn.all.map fun c => columnText .node (.node c))) (by decide)
    ((Selection.writes h).append horder)
  rw [slots, List.append_assoc]
  exact hpieces

end PageStatement

namespace GroupStatement

/-- The slots of a statement for groups. -/
def slots (s : GroupStatement) : List Slot :=
  s.keys.flatMap (fun e => slotsFrom "" e.pieces) ++ s.selection.slots
    ++ [⟨" LIMIT ", .integer s.limit⟩]

theorem isInert_keyName (place : Nat) : isInert (keyName place) = true :=
  isInert_append (by decide) (isInert_number place)

theorem isInert_intercalate {separator : String} (hseparator : isInert separator = true)
    {l : List String} (hl : ∀ s ∈ l, isInert s = true) :
    isInert (separator.intercalate l) = true := by
  induction l with
  | nil =>
    rw [String.intercalate_nil]
    rfl
  | cons s l ih =>
    rw [List.forall_mem_cons] at hl
    cases l with
    | nil => exact hl.1
    | cons t l =>
      rw [String.intercalate_cons_cons]
      exact isInert_append (isInert_append hl.1 hseparator) (ih hl.2)

theorem isInert_keyNames (count : Nat) : isInert (keyNames count) = true := by
  refine isInert_intercalate (by decide) fun s hs => ?_
  obtain ⟨place, -, rfl⟩ := List.mem_map.mp hs
  exact isInert_keyName place

theorem writes_keyPieces {keys : List Expr} (hkeys : ∀ e ∈ keys, Plain e.pieces) (place : Nat) :
    Writes (keyPieces place keys) (keys.flatMap fun e => slotsFrom "" e.pieces) := by
  induction keys generalizing place with
  | nil => exact Writes.nil
  | cons e keys ih =>
    rw [List.forall_mem_cons] at hkeys
    have has : isInert (" AS " ++ keyName place ++ ", ") = true :=
      isInert_append (isInert_append (by decide) (isInert_keyName place)) (by decide)
    rw [keyPieces, List.flatMap_cons]
    exact (Writes.of_plain hkeys.1).append (Writes.text_cons has (ih hkeys.2 _))

theorem writes {s : GroupStatement} (h : s.selection.IsPlain)
    (hkeys : ∀ e ∈ s.keys, Plain e.pieces) : Writes s.pieces s.slots := by
  set names := keyNames s.keys.length with hnames
  have hplain : isInert names = true := isInert_keyNames _
  have hlimit : Writes [Piece.text (" GROUP BY " ++ names ++ " ORDER BY cnt DESC, " ++ names
      ++ " LIMIT "), Piece.slot (.integer s.limit)] [⟨" LIMIT ", .integer s.limit⟩] := by
    refine Writes.slot_cons ?_ ?_ Writes.nil
    · exact isInert_append (isInert_append (isInert_append (isInert_append (by decide) hplain)
        (by decide)) hplain) (by decide)
    · rw [String.toList_append]
      exact List.suffix_append _ _
  have hcount := Writes.text_cons (s := "COUNT(DISTINCT " ++ nodeId ++ ") AS cnt") (by decide)
    ((Selection.writes h).append hlimit)
  have hpieces := Writes.text_cons (s := "SELECT ") (by decide)
    ((writes_keyPieces hkeys 0).append hcount)
  rw [slots, List.append_assoc]
  exact hpieces

end GroupStatement

end GraphIndex
