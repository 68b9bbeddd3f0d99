import GraphIndex.Proofs.Statement.Slots

/-!
# What the text of a statement depends on

The text of a statement is made of the texts of its parts. `JoinSet.SameText`, `Selection.SameText`
and the like say that two parts have the same texts, whatever they bind; statements of such parts
are written alike (`PageStatement.sql_congr`, `GroupStatement.sql_congr`,
`Selection.countSql_congr`).
-/

namespace GraphIndex

open Piece

namespace Piece

variable {ps qs ps' qs' : List Piece}

theorem textOf_append_congr (h : textOf ps = textOf ps') (h' : textOf qs = textOf qs') :
    textOf (ps ++ qs) = textOf (ps' ++ qs') := by
  rw [textOf_append, textOf_append, h, h']

theorem textOf_cons_congr {p : Piece} (h : textOf ps = textOf ps') :
    textOf (p :: ps) = textOf (p :: ps') := by
  rw [textOf_cons, textOf_cons, h]

theorem textOf_slot_congr (v v' : Datum) (h : textOf ps = textOf ps') :
    textOf (slot v :: ps) = textOf (slot v' :: ps') := by
  rw [textOf_cons, textOf_cons, h]
  rfl

theorem textOf_joined (separator : String) (l : List (List Piece)) :
    textOf (joined separator l) = separator.intercalate (l.map textOf) := by
  induction l with
  | nil =>
    rw [List.map_nil, String.intercalate_nil]
    rfl
  | cons ps l ih =>
    cases l with
    | nil => rw [List.map_singleton, String.intercalate_singleton]; rfl
    | cons qs l =>
      have hjoined : joined separator (ps :: qs :: l)
          = ps ++ text separator :: joined separator (qs :: l) := rfl
      rw [List.map_cons, List.map_cons, String.intercalate_cons_cons, ← List.map_cons, ← ih,
        hjoined, textOf_append, textOf_cons, String.append_assoc]
      rfl

end Piece

/-! ### Conditions -/

namespace Condition

/-- The text of a condition. -/
def text (c : Condition) : String := textOf c.pieces

theorem listPieces_eq_map (cs : List Condition) : listPieces cs = cs.map pieces := by
  induction cs with
  | nil => rfl
  | cons c cs ih => rw [listPieces, ih, List.map_cons]

/-- Conditions with the same texts are joined to the same text. -/
theorem textOf_joined_congr {cs ds : List Condition} (h : cs.map text = ds.map text)
    (separator : String) :
    textOf (joined separator (listPieces cs)) = textOf (joined separator (listPieces ds)) := by
  rw [textOf_joined, textOf_joined, listPieces_eq_map, listPieces_eq_map, List.map_map,
    List.map_map]
  exact congrArg separator.intercalate h

theorem textOf_allPieces_congr {cs ds : List Condition} (h : cs.map text = ds.map text) :
    textOf (allPieces cs) = textOf (allPieces ds) :=
  textOf_joined_congr h _

theorem text_group_congr {cs ds : List Condition} (kind : Connective)
    (h : cs.map text = ds.map text) : (group kind cs).text = (group kind ds).text := by
  have hjoined := textOf_joined_congr h kind.separator
  unfold text
  rw [pieces, pieces]
  exact textOf_cons_congr (textOf_append_congr hjoined rfl)

theorem text_exists_congr {cs ds : List Condition} (holds : Bool) (source : Source)
    (h : cs.map text = ds.map text) :
    (Condition.exists holds source cs).text = (Condition.exists holds source ds).text := by
  have hjoined := textOf_joined_congr h Connective.all.separator
  unfold text
  rw [pieces, pieces]
  exact textOf_cons_congr (textOf_append_congr hjoined rfl)

theorem text_not_congr {c d : Condition} (h : c.text = d.text) :
    (Condition.not c).text = (Condition.not d).text := by
  unfold text at *
  rw [pieces, pieces]
  exact textOf_cons_congr (textOf_append_congr h rfl)

theorem texts_not_congr {cs ds : List Condition} (h : cs.map text = ds.map text) :
    (cs.map .not).map text = (ds.map .not).map text := by
  induction cs generalizing ds with
  | nil => rw [List.map_eq_nil_iff.mp h.symm]
  | cons c cs ih =>
    cases ds with
    | nil => exact absurd h (by simp)
    | cons d ds =>
      rw [List.map_cons, List.map_cons, List.cons.injEq] at h
      rw [List.map_cons, List.map_cons, List.map_cons, List.map_cons, text_not_congr h.1, ih h.2]

/-- The text of a comparison is the same for all bound values. -/
theorem text_compare_bound (e : Expr) (c : Comparison) (v v' : Datum) :
    (compare e c (.bound v)).text = (compare e c (.bound v')).text :=
  textOf_append_congr rfl (textOf_cons_congr (textOf_slot_congr v v' rfl))

theorem text_like (e : Expr) (p p' : String) : (like e p).text = (like e p').text :=
  textOf_append_congr rfl (textOf_cons_congr (textOf_slot_congr _ _ rfl))

end Condition

/-! ### Joins -/

/-- The key and the text of a join. -/
def Join.head (j : Join) : Option JoinKey × String := (j.key?, textOf j.pieces)

namespace JoinSet

variable {s t : JoinSet} {js ks : List Join}

/-- The joins of two sets have the same keys and texts. -/
def SameText (s t : JoinSet) : Prop := s.joins.map Join.head = t.joins.map Join.head

theorem contains_congr (h : s.SameText t) (key : Option JoinKey) :
    s.contains key = t.contains key := by
  have hany : ∀ u : JoinSet, u.contains key = (u.joins.map Join.head).any fun p => p.1 == key := by
    intro u
    rw [Bool.eq_iff_iff, JoinSet.contains_iff, List.any_map, List.any_eq_true]
    simp only [Function.comp_apply, Join.head, beq_iff_eq]
  rw [hany, hany, h]

theorem insert_congr (h : s.SameText t) {j k : Join} (hhead : j.head = k.head) :
    (s.insert j).SameText (t.insert k) := by
  have hkey : j.key? = k.key? := congrArg Prod.fst hhead
  have hiff : s.contains j.key? = t.contains k.key? := by rw [contains_congr h, hkey]
  by_cases hc : s.contains j.key? = true
  · rw [insert_of_contains hc, insert_of_contains (hiff ▸ hc)]
    exact h
  · unfold SameText
    rw [joins_insert_of_not_contains hc, joins_insert_of_not_contains (hiff ▸ hc), List.map_append,
      List.map_append, List.map_singleton, List.map_singleton, h, hhead]

/-- Which of the added joins are kept depends on keys alone. -/
theorem insertAll_congr (h : s.SameText t) (hheads : js.map Join.head = ks.map Join.head) :
    (s.insertAll js).SameText (t.insertAll ks) := by
  induction js generalizing s t ks with
  | nil =>
    cases ks with
    | nil => exact h
    | cons k ks => exact absurd hheads (by simp)
  | cons j js ih =>
    cases ks with
    | nil => exact absurd hheads (by simp)
    | cons k ks =>
      rw [List.map_cons, List.map_cons, List.cons.injEq] at hheads
      have hfirst : (s.insert j).SameText (t.insert k) := insert_congr h hheads.1
      show ((s.insert j).insertAll js).SameText ((t.insert k).insertAll ks)
      exact ih hfirst hheads.2

theorem textOf_pieces_congr (h : s.SameText t) : textOf s.pieces = textOf t.pieces := by
  have htexts : ∀ u : JoinSet, (u.joins.map Join.pieces).map textOf
      = (u.joins.map Join.head).map Prod.snd := by
    intro u
    rw [List.map_map, List.map_map]
    rfl
  unfold JoinSet.pieces
  rw [textOf_joined, textOf_joined, htexts, htexts, h]

end JoinSet

/-! ### Statements -/

namespace Selection

variable {s t : Selection}

/-- Joins and conditions of two selections have the same texts. -/
structure SameText (s t : Selection) : Prop where
  joins : s.joins.SameText t.joins
  conditions : s.conditions.map Condition.text = t.conditions.map Condition.text

theorem textOf_pieces_congr (h : s.SameText t) : textOf s.pieces = textOf t.pieces := by
  have hempty : s.conditions.isEmpty = t.conditions.isEmpty := by
    have hmap := congrArg List.isEmpty h.conditions
    rw [List.isEmpty_map, List.isEmpty_map] at hmap
    exact hmap
  have hfilter : textOf s.filterPieces = textOf t.filterPieces := by
    unfold filterPieces
    rw [hempty]
    split
    · rfl
    · exact textOf_cons_congr (Condition.textOf_allPieces_congr h.conditions)
  exact textOf_cons_congr (textOf_append_congr (JoinSet.textOf_pieces_congr h.joins)
    (textOf_cons_congr hfilter))

/-- The text of a count depends only on the texts of the selection. -/
theorem countSql_congr (h : s.SameText t) : s.countSql = t.countSql :=
  textOf_cons_congr (textOf_pieces_congr h)

end Selection

/-- The text of a statement for a page depends on the texts of its selection and of its sort key,
and on the direction. -/
theorem PageStatement.sql_congr {s t : PageStatement} (h : s.selection.SameText t.selection)
    (hsort : textOf s.sortBy.pieces = textOf t.sortBy.pieces)
    (hdescending : s.descending = t.descending) : s.sql = t.sql := by
  have hbounds : textOf [Piece.text ((if s.descending then " DESC, " else " ASC, ") ++ nodeId
      ++ " ASC LIMIT "), slot (.integer s.limit), Piece.text " OFFSET ", slot (.integer s.offset)]
      = textOf [Piece.text ((if t.descending then " DESC, " else " ASC, ") ++ nodeId
      ++ " ASC LIMIT "), slot (.integer t.limit), Piece.text " OFFSET ",
      slot (.integer t.offset)] := by
    rw [hdescending]
    exact textOf_cons_congr (textOf_slot_congr _ _ (textOf_cons_congr (textOf_slot_congr _ _ rfl)))
  exact textOf_cons_congr (textOf_append_congr (Selection.textOf_pieces_congr h)
    (textOf_cons_congr (textOf_append_congr hsort hbounds)))

namespace GroupStatement

theorem textOf_keyPieces_congr {keys keys' : List Expr}
    (h : (keys.map fun e => textOf e.pieces) = keys'.map fun e => textOf e.pieces) (place : Nat) :
    textOf (keyPieces place keys) = textOf (keyPieces place keys') := by
  induction keys generalizing keys' place with
  | nil =>
    cases keys' with
    | nil => rfl
    | cons e' keys' => exact absurd h (by simp)
  | cons e keys ih =>
    cases keys' with
    | nil => exact absurd h (by simp)
    | cons e' keys' =>
      rw [List.map_cons, List.map_cons, List.cons.injEq] at h
      exact textOf_append_congr h.1 (textOf_cons_congr (ih h.2 (place + 1)))

/-- The text of a statement for groups depends on the texts of its selection and of its keys. -/
theorem sql_congr {s t : GroupStatement} (h : s.selection.SameText t.selection)
    (hkeys : (s.keys.map fun e => textOf e.pieces) = t.keys.map fun e => textOf e.pieces) :
    s.sql = t.sql := by
  have hlength : s.keys.length = t.keys.length := by
    have hmap := congrArg List.length hkeys
    rw [List.length_map, List.length_map] at hmap
    exact hmap
  have hlimit : textOf [Piece.text (" GROUP BY " ++ keyNames s.keys.length ++ " ORDER BY cnt DESC, "
      ++ keyNames s.keys.length ++ " LIMIT "), slot (.integer s.limit)]
      = textOf [Piece.text (" GROUP BY " ++ keyNames t.keys.length ++ " ORDER BY cnt DESC, "
      ++ keyNames t.keys.length ++ " LIMIT "), slot (.integer t.limit)] := by
    rw [hlength]
    exact textOf_cons_congr (textOf_slot_congr _ _ rfl)
  exact textOf_cons_congr (textOf_append_congr (textOf_keyPieces_congr hkeys 0)
    (textOf_cons_congr (textOf_append_congr (Selection.textOf_pieces_congr h) hlimit)))

end GroupStatement

end GraphIndex
