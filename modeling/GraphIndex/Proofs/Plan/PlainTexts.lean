import GraphIndex.Proofs.Plan.Numbering
import GraphIndex.Proofs.Statement.Written

/-!
# Plain texts of conditions

No text of the conditions that filters are made of holds a question mark outside of quotes, and all
quotes are closed: names of aliases and columns have neither, and the patterns of numerals stand
between quotes. Values and names that come with a request stand in slots.
-/

namespace GraphIndex

open Piece
open Condition (listSlots ListPlain)

/-! ### Names -/

namespace Column

theorem isInert_name (c : Column) : isInert c.name = true := by
  cases c with
  | node c => cases c <;> decide
  | _ => decide

end Column

theorem isInert_columnText {a : Alias} (ha : isInert a.name = true) (c : Column) :
    isInert (columnText a c) = true :=
  isInert_append (isInert_append ha (by decide)) c.isInert_name

namespace Alias

theorem isInert_parentTag (k : Nat) : isInert (parentTag k).name = true :=
  isInert_append (by decide) (isInert_number k)

theorem isInert_parentName (k : Nat) : isInert (parentName k).name = true :=
  isInert_append (by decide) (isInert_number k)

theorem isInert_dimension (k : Nat) : isInert (dimension k).name = true :=
  isInert_append (by decide) (isInert_number k)

theorem isInert_fieldValue {stem : String} (hstem : isInert stem = true) (k : Nat) :
    isInert (fieldValue stem k).name = true :=
  isInert_append hstem (isInert_number k)

end Alias

/-! ### Expressions and conditions -/

namespace Expr

theorem plain_column {a : Alias} (ha : isInert a.name = true) (c : Column) :
    Plain (column a c).pieces :=
  plain_text_cons.mpr ⟨isInert_columnText ha c, plain_nil⟩

theorem plain_bound (v : Datum) : Plain (bound v).pieces :=
  plain_slot_cons.mpr plain_nil

end Expr

namespace Comparison

theorem isInert_symbol (c : Comparison) : isInert (" " ++ c.symbol ++ " ") = true := by
  cases c <;> decide

end Comparison

namespace Condition

theorem plain_compare {e d : Expr} (he : Plain e.pieces) (hd : Plain d.pieces) (c : Comparison) :
    Plain (compare e c d).pieces :=
  plain_append.mpr ⟨he, plain_text_cons.mpr ⟨c.isInert_symbol, hd⟩⟩

theorem plain_enclosed {kind : Connective} {s : String} {cs : List Condition}
    (hs : isInert s = true) (hcs : ListPlain cs) :
    Plain (Piece.text s :: (joined kind.separator (listPieces cs) ++ [Piece.text ")"])) := by
  have hjoined := plain_joined (isInert_separator kind) hcs
  have hclose : Plain [Piece.text ")"] := plain_text_cons.mpr ⟨by decide, plain_nil⟩
  exact plain_text_cons.mpr ⟨hs, plain_append.mpr ⟨hjoined, hclose⟩⟩

theorem plain_group {cs : List Condition} (kind : Connective) (hcs : ListPlain cs) :
    Plain (group kind cs).pieces :=
  plain_enclosed (by decide) hcs

theorem plain_exists {source : Source} {cs : List Condition} (holds : Bool)
    (hname : isInert source.name.name = true) (hcs : ListPlain cs) :
    Plain (Condition.exists holds source cs).pieces := by
  refine plain_enclosed ?_ hcs
  have hblank : isInert " " = true := by decide
  have hwhere : isInert " WHERE " = true := by decide
  have hfrom : isInert ("EXISTS (SELECT 1 FROM " ++ source.table.name) = true :=
    isInert_append (by decide) source.table.isInert_name
  have hsource : isInert source.nestedText = true :=
    isInert_append (isInert_append (isInert_append hfrom hblank) hname) hwhere
  cases holds with
  | true => exact isInert_append (by decide) hsource
  | false => exact isInert_append (by decide) hsource

theorem listPlain_nil : ListPlain [] := fun _ h => absurd h List.not_mem_nil

theorem listPlain_singleton {c : Condition} (h : Plain c.pieces) : ListPlain [c] :=
  listPlain_cons.mpr ⟨h, listPlain_nil⟩

theorem listPlain_map_not {cs : List Condition} (h : ListPlain cs) :
    ListPlain (cs.map .not) := by
  induction cs with
  | nil => exact h
  | cons c cs ih =>
    obtain ⟨hc, hcs⟩ := listPlain_cons.mp h
    have hclose : Plain [Piece.text ")"] := plain_text_cons.mpr ⟨by decide, plain_nil⟩
    have hnot : Plain (Condition.not c).pieces :=
      plain_text_cons.mpr ⟨by decide, plain_append.mpr ⟨hc, hclose⟩⟩
    exact listPlain_cons.mpr ⟨hnot, ih hcs⟩

theorem plain_valueCondition {e : Expr} (he : Plain e.pieces) (asText : Bool) (v : Operand)
    (op : Operator) : Plain (valueCondition e asText v op).pieces := by
  cases op with
  | compare c => exact plain_compare he (Expr.plain_bound _) c
  | contains =>
    refine plain_append.mpr ⟨he, plain_text_cons.mpr ⟨by decide, plain_slot_cons.mpr ?_⟩⟩
    exact plain_text_cons.mpr ⟨by decide, plain_nil⟩
  | present => exact plain_append.mpr ⟨he, plain_text_cons.mpr ⟨by decide, plain_nil⟩⟩
  | missing =>
    have hempty : Plain (Expr.quoted "").pieces := plain_text_cons.mpr ⟨by decide, plain_nil⟩
    have hnull : Plain (isNull e).pieces :=
      plain_append.mpr ⟨he, plain_text_cons.mpr ⟨by decide, plain_nil⟩⟩
    exact plain_group _ (listPlain_cons.mpr ⟨hnull,
      listPlain_singleton (plain_compare he hempty .equal)⟩)

/-- The patterns of numerals hold question marks, but inside of quotes. -/
theorem listPlain_numeralConditions {e : Expr} (he : Plain e.pieces) :
    ListPlain (numeralConditions e) := by
  have hglob : ∀ (fits : Bool) (p : Pattern),
      isInert ((if fits then " GLOB " else " NOT GLOB ") ++ quotedText (.ofList p.globText))
          = true →
      Plain (glob fits e p).pieces := fun fits p hp =>
    plain_append.mpr ⟨he, plain_text_cons.mpr ⟨hp, plain_nil⟩⟩
  exact listPlain_cons.mpr ⟨hglob true someDigit (by decide), listPlain_cons.mpr
    ⟨hglob false someOther (by decide), listPlain_cons.mpr ⟨hglob false laterSign (by decide),
      listPlain_singleton (hglob false twoPoints (by decide))⟩⟩⟩

theorem plain_fieldCondition {field : String} {e : Expr} {v : Operand} {op : Operator}
    {holds : Condition} (he : Plain e.pieces) (h : fieldCondition field e v op = .ok holds) :
    Plain holds.pieces := by
  rcases fieldCondition_cases h with ⟨-, rfl⟩ | ⟨c, number, -, -, -, rfl⟩
  · exact plain_valueCondition he true v op
  · have hcast : Plain (Expr.cast e .real).pieces := by
      have hclose : Plain [Piece.text (" AS " ++ Affinity.real.name ++ ")")] :=
        plain_text_cons.mpr ⟨by decide, plain_nil⟩
      exact plain_text_cons.mpr ⟨by decide, plain_append.mpr ⟨he, hclose⟩⟩
    exact plain_group _ (listPlain_append.mpr ⟨listPlain_numeralConditions he,
      listPlain_singleton (plain_compare hcast (Expr.plain_bound number) c)⟩)

end Condition

end GraphIndex
