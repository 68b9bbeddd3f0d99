import GraphIndex.Statement.Text
import Mathlib

/-!
# The slots of a written statement

`marks` finds the question marks of a text that stand outside of quotes. In a written statement
they are its slots, provided that its texts are plain (`isInert`), that is, hold no such mark and
close their quotes. `Piece.Writes ps ts` says that pieces are plain and have the slots `ts`, each of
which names what is written directly in front of it; from this follows where the marks stand and
which value is bound to which (`Piece.Writes.filled`).
-/

namespace GraphIndex

/-! ### Marks outside of quotes -/

/-- The places of the question marks outside of quotes; `quoted` says whether the text begins inside
of quotes, and its characters are counted from `place` on. -/
def marksFrom (quoted : Bool) (place : Nat) : List Char → List Nat
  | [] => []
  | c :: cs =>
    if c = '\'' then marksFrom (!quoted) (place + 1) cs
    else if c = '?' ∧ quoted = false then place :: marksFrom quoted (place + 1) cs
    else marksFrom quoted (place + 1) cs

/-- The places of the question marks of a text outside of quotes. -/
def marks (s : String) : List Nat := marksFrom false 0 s.toList

/-- Whether no question mark stands outside of quotes, and all quotes are closed at the end. -/
def plainFrom (quoted : Bool) : List Char → Bool
  | [] => !quoted
  | c :: cs =>
    if c = '\'' then plainFrom (!quoted) cs else (quoted || c != '?') && plainFrom quoted cs

/-- Whether a text has no question mark outside of quotes and closes its quotes. -/
def isInert (s : String) : Bool := plainFrom false s.toList

theorem plainFrom_append {quoted : Bool} {cs ds : List Char} (hcs : plainFrom quoted cs = true)
    (hds : plainFrom false ds = true) : plainFrom quoted (cs ++ ds) = true := by
  induction cs generalizing quoted with
  | nil =>
    have hquoted : quoted = false := by simpa [plainFrom] using hcs
    rw [hquoted]
    exact hds
  | cons c cs ih =>
    rw [plainFrom] at hcs
    rw [List.cons_append, plainFrom]
    split at hcs
    · rename_i hquote
      rw [if_pos hquote]
      exact ih hcs
    · rename_i hquote
      rw [Bool.and_eq_true] at hcs
      rw [if_neg hquote, hcs.1, Bool.true_and]
      exact ih hcs.2

/-- The marks behind a plain text are found as if the text did not stand in front of them. -/
theorem marksFrom_append_of_plain {quoted : Bool} {cs : List Char}
    (hcs : plainFrom quoted cs = true) (place : Nat) (ds : List Char) :
    marksFrom quoted place (cs ++ ds) = marksFrom false (place + cs.length) ds := by
  induction cs generalizing quoted place with
  | nil =>
    have hquoted : quoted = false := by simpa [plainFrom] using hcs
    rw [hquoted]
    rfl
  | cons c cs ih =>
    have hplace : place + (c :: cs).length = place + 1 + cs.length := by
      rw [List.length_cons]
      omega
    rw [plainFrom] at hcs
    rw [List.cons_append, marksFrom, hplace]
    split at hcs
    · rename_i hquote
      rw [if_pos hquote]
      exact ih hcs _
    · rename_i hquote
      rw [Bool.and_eq_true, Bool.or_eq_true, bne_iff_ne] at hcs
      -- In a plain text a question mark stands between quotes only.
      have hmark : ¬ (c = '?' ∧ quoted = false) := by
        rintro ⟨rfl, rfl⟩
        exact hcs.1.elim Bool.false_ne_true fun h => h rfl
      rw [if_neg hquote, if_neg hmark]
      exact ih hcs.2 _

theorem isInert_append {s t : String} (hs : isInert s = true) (ht : isInert t = true) :
    isInert (s ++ t) = true := by
  unfold isInert
  rw [String.toList_append]
  exact plainFrom_append hs ht

/-- A text without quotes and question marks is plain. -/
theorem plainFrom_of_forall {cs : List Char} (h : ∀ c ∈ cs, c ≠ '\'' ∧ c ≠ '?') :
    plainFrom false cs = true := by
  induction cs with
  | nil => rfl
  | cons c cs ih =>
    rw [List.forall_mem_cons] at h
    rw [plainFrom, if_neg h.1.1, Bool.false_or, bne_iff_ne.mpr h.1.2, Bool.true_and]
    exact ih h.2

theorem isInert_number (n : Nat) : isInert (toString n) = true := by
  refine plainFrom_of_forall fun c hc => ?_
  have hmem : c ∈ Nat.toDigits 10 n := by simpa using hc
  have hdigit : c.isDigit = true := Nat.isDigit_of_mem_toDigits (by decide) (by decide) hmem
  exact ⟨fun h => absurd hdigit (by rw [h]; decide), fun h => absurd hdigit (by rw [h]; decide)⟩

/-! ### Slots of pieces -/

/-- What stands in front of a mark, and the value that is bound to it. -/
structure Slot where
  lead : String
  value : Datum
  deriving DecidableEq, Repr

/-- One slot names less of what stands in front of the mark than the other. -/
def Slot.EndsIn (s t : Slot) : Prop := t.lead.toList <:+ s.lead.toList ∧ s.value = t.value

namespace Piece

variable {ps qs : List Piece} {ts us : List Slot} {s : String}

theorem textOf_cons (p : Piece) (ps : List Piece) : textOf (p :: ps) = p.written ++ textOf ps := by
  unfold textOf
  rw [List.map_cons, String.join_cons]

theorem textOf_append (ps qs : List Piece) : textOf (ps ++ qs) = textOf ps ++ textOf qs := by
  unfold textOf
  rw [List.map_append, String.join_append]

/-- The slots of pieces, each with all that is written in front of it. -/
def slotsFrom (before : String) : List Piece → List Slot
  | [] => []
  | text s :: ps => slotsFrom (before ++ s) ps
  | slot v :: ps => ⟨before, v⟩ :: slotsFrom (before ++ slotMark) ps

theorem slotsFrom_append (before : String) (ps qs : List Piece) :
    slotsFrom before (ps ++ qs) = slotsFrom before ps ++ slotsFrom (before ++ textOf ps) qs := by
  induction ps generalizing before with
  | nil => simp [slotsFrom, textOf]
  | cons p ps ih =>
    cases p with
    | text s =>
      rw [List.cons_append, slotsFrom, slotsFrom, ih, textOf_cons, String.append_assoc]
      rfl
    | slot v =>
      rw [List.cons_append, slotsFrom, slotsFrom, ih, textOf_cons, String.append_assoc]
      rfl

theorem values_slotsFrom (before : String) (ps : List Piece) :
    (slotsFrom before ps).map Slot.value = valuesOf ps := by
  induction ps generalizing before with
  | nil => rfl
  | cons p ps ih =>
    cases p with
    | text s => exact ih _
    | slot v => exact congrArg (v :: ·) (ih _)

/-- Less is written in front of a slot if less is written in front of all pieces. -/
theorem slotsFrom_endsIn (before : String) (ps : List Piece) : ∀ inner : String,
    List.Forall₂ Slot.EndsIn (slotsFrom (before ++ inner) ps) (slotsFrom inner ps) := by
  induction ps with
  | nil => exact fun _ => .nil
  | cons p ps ih =>
    intro inner
    cases p with
    | text s =>
      have hrest := ih (inner ++ s)
      rw [← String.append_assoc] at hrest
      exact hrest
    | slot v =>
      have hrest := ih (inner ++ slotMark)
      rw [← String.append_assoc] at hrest
      refine .cons ⟨?_, rfl⟩ hrest
      show inner.toList <:+ (before ++ inner).toList
      rw [String.toList_append]
      exact List.suffix_append _ _

/-- All texts among the pieces are plain. -/
def Plain (ps : List Piece) : Prop := ∀ s, text s ∈ ps → isInert s = true

theorem plain_nil : Plain [] := fun _ h => absurd h List.not_mem_nil

@[simp]
theorem plain_text_cons : Plain (text s :: ps) ↔ isInert s = true ∧ Plain ps := by
  unfold Plain
  simp only [List.mem_cons, text.injEq]
  constructor
  · exact fun h => ⟨h s (Or.inl rfl), fun t ht => h t (Or.inr ht)⟩
  · rintro ⟨hs, hps⟩ t (rfl | ht)
    · exact hs
    · exact hps t ht

@[simp]
theorem plain_slot_cons {v : Datum} : Plain (slot v :: ps) ↔ Plain ps := by
  unfold Plain
  simp only [List.mem_cons, reduceCtorEq, false_or]

@[simp]
theorem plain_append : Plain (ps ++ qs) ↔ Plain ps ∧ Plain qs := by
  unfold Plain
  simp only [List.mem_append]
  constructor
  · exact fun h => ⟨fun t ht => h t (Or.inl ht), fun t ht => h t (Or.inr ht)⟩
  · rintro ⟨hps, hqs⟩ t (ht | ht)
    · exact hps t ht
    · exact hqs t ht

theorem plain_joined {separator : String} {l : List (List Piece)}
    (hseparator : isInert separator = true) (hl : ∀ ps ∈ l, Plain ps) :
    Plain (joined separator l) := by
  induction l with
  | nil => exact plain_nil
  | cons ps l ih =>
    rw [List.forall_mem_cons] at hl
    cases l with
    | nil => exact hl.1
    | cons qs l => exact plain_append.mpr ⟨hl.1, plain_text_cons.mpr ⟨hseparator, ih hl.2⟩⟩

theorem plain_of_joined {separator : String} {l : List (List Piece)}
    (h : Plain (joined separator l)) : ∀ ps ∈ l, Plain ps := by
  induction l with
  | nil => exact fun _ h => absurd h List.not_mem_nil
  | cons ps l ih =>
    cases l with
    | nil => exact List.forall_mem_singleton.mpr h
    | cons qs l =>
      obtain ⟨hps, hrest⟩ := plain_append.mp h
      exact List.forall_mem_cons.mpr ⟨hps, ih (plain_text_cons.mp hrest).2⟩

/-- Plain texts without any slot. -/
def Bare (ps : List Piece) : Prop := ∀ p ∈ ps, ∃ s, p = text s ∧ isInert s = true

theorem bare_text (hs : isInert s = true) : Bare [text s] :=
  List.forall_mem_singleton.mpr ⟨s, rfl, hs⟩

theorem Bare.append (hps : Bare ps) (hqs : Bare qs) : Bare (ps ++ qs) :=
  List.forall_mem_append.mpr ⟨hps, hqs⟩

theorem Bare.text_cons (hs : isInert s = true) (hps : Bare ps) : Bare (text s :: ps) :=
  (bare_text hs).append hps

theorem Bare.plain (h : Bare ps) : Plain ps := by
  intro s hs
  obtain ⟨t, ht, hplain⟩ := h _ hs
  rw [text.inj ht]
  exact hplain

theorem Bare.slotsFrom_eq_nil (h : Bare ps) (before : String) : slotsFrom before ps = [] := by
  induction ps generalizing before with
  | nil => rfl
  | cons p ps ih =>
    obtain ⟨⟨s, rfl, -⟩, hps⟩ := List.forall_mem_cons.mp h
    exact ih hps _

/-! ### Pieces that write slots -/

/-- The pieces are plain and have these slots, whatever is written in front of them. -/
structure Writes (ps : List Piece) (ts : List Slot) : Prop where
  plain : Plain ps
  slots : ∀ before, List.Forall₂ Slot.EndsIn (slotsFrom before ps) ts

namespace Writes

theorem nil : Writes [] [] := ⟨plain_nil, fun _ => .nil⟩

theorem text (hs : isInert s = true) : Writes [text s] [] :=
  ⟨plain_text_cons.mpr ⟨hs, plain_nil⟩, fun _ => .nil⟩

/-- Plain pieces write their own slots. -/
theorem of_plain (h : Plain ps) : Writes ps (slotsFrom "" ps) := by
  refine ⟨h, fun before => ?_⟩
  have hends := slotsFrom_endsIn before ps ""
  rw [String.append_empty] at hends
  exact hends

theorem append (h : Writes ps ts) (h' : Writes qs us) : Writes (ps ++ qs) (ts ++ us) := by
  refine ⟨plain_append.mpr ⟨h.plain, h'.plain⟩, fun before => ?_⟩
  rw [slotsFrom_append]
  exact List.rel_append (h.slots _) (h'.slots _)

theorem text_cons (hs : isInert s = true) (h : Writes ps ts) :
    Writes (Piece.text s :: ps) ts :=
  (text hs).append h

theorem append_text (h : Writes ps ts) (hs : isInert s = true) :
    Writes (ps ++ [Piece.text s]) ts := by
  have happend := h.append (text hs)
  rw [List.append_nil] at happend
  exact happend

/-- A mark right behind a plain text; of the text only an end is named. -/
theorem slot_cons {lead : String} {v : Datum} (hs : isInert s = true)
    (hlead : lead.toList <:+ s.toList) (h : Writes ps ts) :
    Writes (Piece.text s :: Piece.slot v :: ps) (⟨lead, v⟩ :: ts) := by
  refine ⟨plain_text_cons.mpr ⟨hs, plain_slot_cons.mpr h.plain⟩, fun before => ?_⟩
  refine .cons ⟨?_, rfl⟩ (h.slots _)
  show lead.toList <:+ (before ++ s).toList
  rw [String.toList_append]
  exact hlead.trans (List.suffix_append _ _)

theorem joined {separator : String} (hseparator : isInert separator = true)
    {l : List (List Piece)} {slots : List (List Slot)} (h : List.Forall₂ Writes l slots) :
    Writes (Piece.joined separator l) slots.flatten := by
  induction h with
  | nil => exact nil
  | @cons ps ts l slots hps hl ih =>
    cases hl with
    | nil =>
      rw [List.flatten_cons, List.flatten_nil, List.append_nil]
      exact hps
    | cons hqs hl =>
      rw [List.flatten_cons]
      exact hps.append (text_cons hseparator ih)

end Writes

/-! ### Marks of written pieces -/

/-- The marks of a text: as many as values are bound, each right behind what is named in front of
it, and bound to the value that is named with it. -/
structure Filled (sql : String) (values : List Datum) (ts : List Slot) : Prop where
  count : (marks sql).length = values.length
  values : values = ts.map Slot.value
  leads : List.Forall₂ (fun place t => t.lead.toList <:+ sql.toList.take place) (marks sql) ts

/-- The marks of plain pieces stand where their slots are. -/
theorem marksFrom_textOf (h : Plain ps) (before : String) :
    marksFrom false before.toList.length (textOf ps).toList
      = (slotsFrom before ps).map fun t => t.lead.toList.length := by
  induction ps generalizing before with
  | nil => rfl
  | cons p ps ih =>
    rw [textOf_cons, String.toList_append]
    cases p with
    | text s =>
      obtain ⟨hs, hps⟩ := plain_text_cons.mp h
      have hlength : before.toList.length + s.toList.length = (before ++ s).toList.length := by
        rw [String.toList_append, List.length_append]
      have happend := marksFrom_append_of_plain hs before.toList.length (textOf ps).toList
      exact happend.trans (hlength ▸ ih hps (before ++ s))
    | slot v =>
      have hlength : before.toList.length + 1 = (before ++ slotMark).toList.length := by
        rw [String.toList_append, List.length_append]
        rfl
      have hmark : marksFrom false before.toList.length
          ((slot v).written.toList ++ (textOf ps).toList)
          = before.toList.length
            :: marksFrom false (before.toList.length + 1) (textOf ps).toList := by
        simp [written, slotMark, marksFrom]
      rw [hmark, hlength, ih (plain_slot_cons.mp h) (before ++ slotMark)]
      rfl

/-- What is written in front of a slot is a beginning of the whole text. -/
theorem lead_begins (before : String) (ps : List Piece) :
    ∀ t ∈ slotsFrom before ps, t.lead.toList <+: (before ++ textOf ps).toList := by
  induction ps generalizing before with
  | nil => exact fun t ht => absurd ht List.not_mem_nil
  | cons p ps ih =>
    rw [textOf_cons, ← String.append_assoc]
    cases p with
    | text s => exact ih (before ++ s)
    | slot v =>
      refine List.forall_mem_cons.mpr ⟨?_, ih (before ++ slotMark)⟩
      rw [String.append_assoc, String.toList_append]
      exact List.prefix_append _ _

/-- **Every mark has its own value**: the marks of a text that writes slots are these slots. -/
theorem Writes.filled (h : Writes ps ts) : Filled (textOf ps) (valuesOf ps) ts := by
  have hmarks : marks (textOf ps) = (slotsFrom "" ps).map fun t => t.lead.toList.length :=
    marksFrom_textOf h.plain ""
  have hvalues := values_slotsFrom "" ps
  have hslots := h.slots ""
  refine ⟨?_, ?_, ?_⟩
  · rw [hmarks, List.length_map, ← hvalues, List.length_map]
  · rw [← hvalues]
    exact List.forall₂_eq_eq_eq ▸ (List.forall₂_map_left_iff.mpr
      (List.forall₂_map_right_iff.mpr (hslots.imp fun _ _ h => h.2)))
  · rw [hmarks, List.forall₂_map_left_iff]
    have hbegins := lead_begins "" ps
    rw [String.empty_append] at hbegins
    -- The lead of a slot is the text up to its mark, and ends in what is named.
    have hboth := (List.forall₂_and_left _ _).mpr ⟨hbegins, hslots⟩
    refine hboth.imp ?_
    rintro t u ⟨hpre, hends, -⟩
    rw [← List.prefix_iff_eq_take.mp hpre]
    exact hends

end Piece

end GraphIndex
