import GraphIndex.Plan.Filter
import GraphIndex.Statement.Meaning
import Mathlib.Data.List.Forall2
import Mathlib.Data.List.Infix
import Mathlib.Data.List.TakeWhile

/-!
# Patterns of the texts that contain a text

The pattern for the texts in which a text occurs is that text between two runs of any characters,
with an escape before what would be a wildcard. Read back it is exactly this
(`Pattern.ofLike?_containing`), so a text fits it if and only if the other text occurs in it, the
case of ASCII letters aside (`Pattern.like_containing_iff`). A statement looks at a text up to its
first NUL only, which may cut the pattern off (`contains_iff_occursIn`).
-/

namespace GraphIndex

namespace Text

/-- Whether two texts are the same, the case of ASCII letters aside. -/
def SameLetters (v s : List Char) : Prop := v.map Char.toLower = s.map Char.toLower

/-- Whether a text occurs in another one, the case of ASCII letters aside. -/
def OccursIn (v s : List Char) : Prop :=
  ∃ before found after, s = before ++ (found ++ after) ∧ SameLetters v found

/-- Whether a text stands at the end of another one, the case of ASCII letters aside. -/
def EndsIn (v s : List Char) : Prop := ∃ before found, s = before ++ found ∧ SameLetters v found

end Text

namespace Pattern

open Text

variable {p : Pattern} {c : Char} {s v rest : List Char}

/-! ### What fits the items of a pattern -/

theorem suffixes_eq_tails (s : List Char) : suffixes s = s.tails := by
  induction s with
  | nil => rfl
  | cons c s ih => rw [suffixes, List.tails_cons, ih]

theorem accepts_anyRun_iff {same : Char → Char → Bool} : accepts same (.anyRun :: p) s = true ↔
    ∃ before rest, s = before ++ rest ∧ accepts same p rest = true := by
  rw [accepts, List.any_eq_true]
  constructor
  · rintro ⟨rest, hrest, haccepts⟩
    rw [suffixes_eq_tails, List.mem_tails] at hrest
    obtain ⟨before, rfl⟩ := hrest
    exact ⟨before, rest, rfl, haccepts⟩
  · rintro ⟨before, rest, rfl, haccepts⟩
    refine ⟨rest, ?_, haccepts⟩
    rw [suffixes_eq_tails, List.mem_tails]
    exact List.suffix_append before rest

theorem sameLetter_iff {d : Char} : sameLetter d c = true ↔ d.toLower = c.toLower := beq_iff_eq

/-- The characters of a text fit a text of the same letters. -/
theorem accepts_chars_iff : accepts sameLetter (v.map .char ++ p) s = true ↔
    ∃ found rest, s = found ++ rest ∧ SameLetters v found ∧ accepts sameLetter p rest = true := by
  induction v generalizing s with
  | nil =>
    constructor
    · intro h
      exact ⟨[], s, rfl, rfl, h⟩
    · rintro ⟨found, rest, rfl, hsame, h⟩
      rw [List.map_eq_nil_iff.mp hsame.symm]
      exact h
  | cons d v ih =>
    cases s with
    | nil =>
      constructor
      · rintro ⟨⟩
      · rintro ⟨found, rest, hs, hsame, -⟩
        obtain ⟨rfl, -⟩ := List.append_eq_nil_iff.mp hs.symm
        exact absurd hsame (by rintro ⟨⟩)
    | cons c s =>
      rw [List.map_cons, List.cons_append, accepts]
      · simp only [fits, Bool.and_eq_true, sameLetter_iff, ih]
        constructor
        · rintro ⟨hletter, found, rest, rfl, hsame, h⟩
          refine ⟨c :: found, rest, rfl, ?_, h⟩
          exact List.cons_eq_cons.mpr ⟨hletter, hsame⟩
        · rintro ⟨found, rest, hs, hsame, h⟩
          cases found with
          | nil => exact absurd hsame (by rintro ⟨⟩)
          | cons b found =>
            obtain ⟨rfl, rfl⟩ := List.cons.inj hs
            obtain ⟨hletter, hsame⟩ := List.cons.inj hsame
            exact ⟨hletter, found, rest, rfl, hsame, h⟩
      · rintro ⟨⟩

/-! ### Escapes -/

/-- A character with its escape is read as this character. -/
theorem ofLike?_escaped (c : Char) (rest : List Char) :
    ofLike? (escaped c ++ rest) = (ofLike? rest).map (.char c :: ·) := by
  unfold escaped
  split_ifs with h
  · show ofLike? (escape :: c :: rest) = _
    rw [ofLike?.eq_def]
    exact if_pos rfl
  · rw [not_or, not_or] at h
    show ofLike? (c :: rest) = _
    rw [ofLike?.eq_def]
    simp only [if_neg h.1, if_neg h.2.1, if_neg h.2.2]

/-- A text with its escapes is read as the characters of the text. -/
theorem ofLike?_escapedText (v rest : List Char) :
    ofLike? (v.flatMap escaped ++ rest) = (ofLike? rest).map (v.map .char ++ ·) := by
  induction v with
  | nil => cases h : ofLike? rest <;> simp [h]
  | cons c v ih =>
    rw [List.flatMap_cons, List.append_assoc, ofLike?_escaped, ih, Option.map_map]
    rfl

theorem ofLike?_percent (rest : List Char) :
    ofLike? ('%' :: rest) = (ofLike? rest).map (.anyRun :: ·) := by
  rw [ofLike?.eq_def]
  rfl

/-- **The pattern for a text**, read back: the text between two runs of any characters. -/
theorem ofLike?_containing (v : List Char) :
    ofLike? (containing v) = some (.anyRun :: (v.map .char ++ [.anyRun])) := by
  rw [containing, ofLike?_percent, ofLike?_escapedText]
  rfl

/-- **A text fits the pattern for another text** if and only if that text occurs in it. -/
theorem like_containing_iff (v s : List Char) : like (containing v) s = true ↔ OccursIn v s := by
  have hrun : ∀ after : List Char, accepts sameLetter [.anyRun] after = true := fun after =>
    accepts_anyRun_iff.mpr ⟨after, [], (List.append_nil after).symm, rfl⟩
  unfold like
  rw [ofLike?_containing]
  show accepts sameLetter (.anyRun :: (v.map .char ++ [.anyRun])) s = true ↔ _
  rw [accepts_anyRun_iff]
  simp only [accepts_chars_iff]
  constructor
  · rintro ⟨before, -, rfl, found, after, rfl, hsame, -⟩
    exact ⟨before, found, after, rfl, hsame⟩
  · rintro ⟨before, found, after, rfl, hsame⟩
    exact ⟨before, _, rfl, found, after, rfl, hsame, hrun after⟩

/-- Without the run behind it the text has to stand at the end. -/
theorem like_ending_iff (v s : List Char) :
    like ('%' :: v.flatMap escaped) s = true ↔ EndsIn v s := by
  have hread : ofLike? ('%' :: v.flatMap escaped) = some (.anyRun :: (v.map .char ++ [])) := by
    rw [ofLike?_percent, ← List.append_nil (v.flatMap escaped), ofLike?_escapedText]
    rfl
  have hend : ∀ rest, accepts sameLetter [] rest = true ↔ rest = [] := fun rest => by
    rw [accepts, List.isEmpty_iff]
  unfold like
  rw [hread]
  show accepts sameLetter (.anyRun :: (v.map .char ++ [])) s = true ↔ _
  rw [accepts_anyRun_iff]
  simp only [accepts_chars_iff, hend]
  constructor
  · rintro ⟨before, -, rfl, found, -, rfl, hsame, rfl⟩
    exact ⟨before, found, by rw [List.append_nil], hsame⟩
  · rintro ⟨before, found, rfl, hsame⟩
    exact ⟨before, found, rfl, found, [], (List.append_nil found).symm, hsame, rfl⟩

end Pattern

/-! ### Texts up to a NUL -/

namespace Datum

open Pattern

variable {v s : List Char} {c : Char}

theorem toNat_bne_zero_iff : (c.toNat != 0) = true ↔ c ≠ '\x00' := by
  rw [bne_iff_ne, not_iff_not]
  exact Char.toNat_inj (d := '\x00')

theorem untilNul_of_not_mem (h : '\x00' ∉ s) : untilNul s = s := by
  refine List.takeWhile_eq_self_iff.mpr fun c hc => toNat_bne_zero_iff.mpr ?_
  rintro rfl
  exact h hc

/-- What stands before a NUL is what is left of a text. -/
theorem untilNul_append (h : '\x00' ∉ s) (rest : List Char) :
    untilNul (s ++ '\x00' :: rest) = s := by
  have hbefore : ∀ c ∈ s, (c.toNat != 0) = true := by
    rintro c hc
    rw [toNat_bne_zero_iff]
    rintro rfl
    exact h hc
  unfold untilNul
  rw [List.takeWhile_append_of_pos hbefore]
  exact List.append_nil s

theorem escaped_nul : escaped '\x00' = ['\x00'] := by decide

theorem nul_not_mem_escapedText (h : '\x00' ∉ v) : '\x00' ∉ v.flatMap escaped := by
  intro hmem
  obtain ⟨c, hc, hnul⟩ := List.mem_flatMap.mp hmem
  unfold escaped at hnul
  split_ifs at hnul
  · rcases List.mem_pair.mp hnul with heq | rfl
    · exact absurd heq (by decide)
    · exact h hc
  · obtain rfl := List.mem_singleton.mp hnul
    exact h hc

theorem untilNul_containing_of_not_mem (h : '\x00' ∉ v) :
    untilNul (containing v) = containing v := by
  apply untilNul_of_not_mem
  rw [containing, List.mem_cons, List.mem_append, List.mem_singleton, not_or, not_or]
  exact ⟨by decide, nul_not_mem_escapedText h, by decide⟩

/-- Of a text with a NUL the pattern keeps the beginning, and the last run is cut off. -/
theorem untilNul_containing_of_mem (h : '\x00' ∈ v) :
    untilNul (containing v) = '%' :: (untilNul v).flatMap escaped := by
  obtain ⟨start, rest, rfl, hstart⟩ := List.eq_append_cons_of_mem h
  have hpattern : containing (start ++ '\x00' :: rest)
      = ('%' :: start.flatMap escaped) ++ '\x00' :: (rest.flatMap escaped ++ ['%']) := by
    rw [containing, List.flatMap_append, List.flatMap_cons, escaped_nul, List.append_assoc]
    rfl
  have hkept : '\x00' ∉ '%' :: start.flatMap escaped := by
    rw [List.mem_cons, not_or]
    exact ⟨by decide, nul_not_mem_escapedText hstart⟩
  rw [hpattern, untilNul_append hkept, untilNul_append hstart]

end Datum

/-! ### The test in statements -/

open Text

instance decidableOccursIn (v s : List Char) : Decidable (OccursIn v s) :=
  decidable_of_iff _ (Pattern.like_containing_iff v s)

instance decidableEndsIn (v s : List Char) : Decidable (EndsIn v s) :=
  decidable_of_iff _ (Pattern.like_ending_iff v s)

namespace Condition

variable {v : Operand}

/-- The test of a statement by what the pattern is up to its first NUL. -/
theorem truth_contains {p : List Char} (h : Datum.untilNul (Pattern.containing v.asText.toList) = p)
    (store : Store) (scope : Scope) (e : Expr) (asText : Bool) :
    (valueCondition e asText v .contains).truth store scope
      = (e.value scope).chars?.map (Pattern.like p) := by
  show (e.value scope).chars?.map
    (fun s => Pattern.like (Datum.untilNul (containingPattern v.asText).toList) s) = _
  rw [containingPattern, String.toList_ofList, h]

end Condition

/-- **"Contains" is a test for a part of a text.** A text fits the pattern for another text if and
only if that text occurs in it, the case of ASCII letters aside, whatever wildcards and escapes it
holds. The test of a statement is this one for the text that is looked at; a value with a NUL has to
stand at the end of that text, as far as the value goes before the NUL. -/
theorem contains_iff_occursIn :
    (∀ v s : String, Pattern.like (containingPattern v).toList s.toList = true
      ↔ OccursIn v.toList s.toList)
    ∧ ∀ (store : Store) (scope : Scope) (e : Expr) (asText : Bool) (v : Operand),
      ('\x00' ∉ v.asText.toList →
        (valueCondition e asText v .contains).truth store scope
          = (e.value scope).chars?.map fun s => decide (OccursIn v.asText.toList s))
      ∧ ('\x00' ∈ v.asText.toList →
        (valueCondition e asText v .contains).truth store scope
          = (e.value scope).chars?.map fun s =>
            decide (EndsIn (Datum.untilNul v.asText.toList) s)) := by
  refine ⟨fun v s => ?_, fun store scope e asText v => ⟨fun h => ?_, fun h => ?_⟩⟩
  · rw [containingPattern, String.toList_ofList]
    exact Pattern.like_containing_iff v.toList s.toList
  · rw [Condition.truth_contains (Datum.untilNul_containing_of_not_mem h)]
    congr 1
    funext s
    rw [Bool.eq_iff_iff, decide_eq_true_iff]
    exact Pattern.like_containing_iff _ s
  · rw [Condition.truth_contains (Datum.untilNul_containing_of_mem h)]
    congr 1
    funext s
    rw [Bool.eq_iff_iff, decide_eq_true_iff]
    exact Pattern.like_ending_iff _ s

/-- A single node with a name. -/
def named (name : String) : Scope :=
  [(.node, .node ⟨some "n1", some name, none, none, .null, .null, .null⟩)]

/-- Wildcards and an escape at the end stand for themselves. -/
theorem contains_wildcards :
    (OccursIn "50%_\\".toList "Now 50%_\\ off".toList
      ∧ Pattern.like (containingPattern "50%_\\").toList "Now 50%_\\ off".toList = true)
    ∧ ('\x00' ∉ (Operand.text "rate_\\").asText.toList
      ∧ (valueCondition (nodeColumn .name) false (.text "rate_\\") .contains).truth ⟨[], [], []⟩
        (named "The Rate_\\") = some true
      ∧ (valueCondition (nodeColumn .name) false (.text "rate_\\") .contains).truth ⟨[], [], []⟩
        (named "The rates\\") = some false)
    ∧ ('\x00' ∈ (Operand.text "cent\x00s").asText.toList
      ∧ (valueCondition (nodeColumn .name) false (.text "cent\x00s") .contains).truth ⟨[], [], []⟩
        (named "50 Cent") = some true) := by
  obtain ⟨hlike, htest⟩ := contains_iff_occursIn
  have hoccurs : OccursIn "50%_\\".toList "Now 50%_\\ off".toList :=
    ⟨"Now ".toList, "50%_\\".toList, " off".toList, by decide, rfl⟩
  have hplain : '\x00' ∉ (Operand.text "rate_\\").asText.toList := by decide
  have hnul : '\x00' ∈ (Operand.text "cent\x00s").asText.toList := by decide
  refine ⟨⟨hoccurs, (hlike _ _).mpr hoccurs⟩, ⟨hplain, ?_, ?_⟩, hnul, ?_⟩
  · rw [(htest _ _ _ false _).1 hplain]
    decide +kernel
  · rw [(htest _ _ _ false _).1 hplain]
    decide +kernel
  · rw [(htest _ _ _ false _).2 hnul]
    decide +kernel

end GraphIndex
