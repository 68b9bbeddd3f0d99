import GraphIndex.Proofs.Number.Numerals
import GraphIndex.Proofs.Number.Overflow
import GraphIndex.Proofs.Query.Language.Words
import Mathlib.Data.List.TakeWhile

/-!
# Numbers in query texts

What a bare value denotes. It is an integer if it can be read as one of sixty-four bits, otherwise
the nearest double if it is a decimal without exponent (`Decimal`), otherwise a text with all of its
characters (`classify_of_int64?`, `classify_eq_real_iff`, `classify_of_no_number`). The nearest
double of a decimal is never a NaN, and it is finite if and only if the decimal is below the
overflow (`Decimal.isFinite_nearest_iff`).
-/

namespace GraphIndex.Language

open Numeral

variable {s token : List Char} {negative : Bool} {x : Binary64}

/-- A number in decimal places: a minus sign or none, digits, and perhaps a point with digits behind
it. -/
structure Decimal where
  negative : Bool
  whole : List Char
  fraction : Option (List Char)

namespace Decimal

/-- The digits behind the point. -/
def places (d : Decimal) : List Char := d.fraction.getD []

def digits (d : Decimal) : List Char := d.whole ++ d.places

/-- The characters without the sign. -/
def unsignedChars (d : Decimal) : List Char := d.whole ++ d.fraction.elim [] ('.' :: ·)

def chars (d : Decimal) : List Char :=
  if d.negative then '-' :: d.unsignedChars else d.unsignedChars

/-- There is a digit before or behind the point, and there are digits only. -/
structure IsProper (d : Decimal) : Prop where
  isDigit : ∀ c ∈ d.digits, c.isDigit = true
  ne_nil : d.digits ≠ []

/-- The number without its sign. -/
def magnitude (d : Decimal) : ℚ := Numeral.value d.digits * 10 ^ (-(d.places.length : Int))

/-- The double nearest to the number. -/
def nearest (d : Decimal) : Binary64 :=
  .ofDecimal d.negative (Numeral.value d.digits) (-(d.places.length : Int))

/-- **A decimal becomes finite** if and only if it is below the overflow. -/
theorem isFinite_nearest_iff (d : Decimal) :
    d.nearest.isFinite = true ↔ d.magnitude < Binary64.overflow :=
  Binary64.isFinite_ofDecimal_iff d.negative (Numeral.value d.digits) _

/-- A decimal is below the power of ten of its digits before the point. -/
theorem IsProper.magnitude_lt {d : Decimal} (hd : d.IsProper) :
    d.magnitude < 10 ^ d.whole.length := by
  have hvalue : (Numeral.value d.digits : ℚ) < 10 ^ d.digits.length := by
    exact_mod_cast value_lt hd.isDigit
  have hlength : (10 : ℚ) ^ d.digits.length = 10 ^ d.whole.length * 10 ^ d.places.length := by
    rw [digits, List.length_append, pow_add]
  unfold magnitude
  rw [zpow_neg, zpow_natCast, ← div_eq_mul_inv, div_lt_iff₀ (by positivity), ← hlength]
  exact hvalue

theorem IsProper.magnitude_lt_overflow {d : Decimal} (hd : d.IsProper)
    (hwhole : d.whole.length ≤ 308) : d.magnitude < Binary64.overflow :=
  calc d.magnitude < 10 ^ d.whole.length := hd.magnitude_lt
    _ ≤ 10 ^ 308 := pow_le_pow_right₀ (by norm_num) hwhole
    _ ≤ Binary64.overflow := Binary64.ten_pow_lt_overflow.le

theorem isNaN_nearest (d : Decimal) : d.nearest.isNaN = false :=
  Binary64.isNaN_ofDecimal d.negative (Numeral.value d.digits) _

end Decimal

/-! ### Reading decimals -/

theorem exponent?_of_inDouble (hs : ∀ c ∈ s, inDouble c = true) :
    exponent? s = if s = [] then some 0 else none := by
  cases s with
  | nil => rfl
  | cons c s =>
    have hletter : ¬ (c = 'e' ∨ c = 'E') := by
      rintro (rfl | rfl) <;> exact absurd (hs _ List.mem_cons_self) (by decide)
    rw [exponent?, if_neg hletter, if_neg (List.cons_ne_nil c s)]

theorem Decimal.IsProper.unsigned?_eq {d : Decimal} (hd : d.IsProper) :
    unsigned? d.negative d.unsignedChars = some d.nearest := by
  obtain ⟨negative, whole, fraction⟩ := d
  obtain ⟨hdigits, hne⟩ := hd
  have hwhole : ∀ c ∈ whole, c.isDigit = true := fun c hc => hdigits c (List.mem_append_left _ hc)
  -- There must be a digit before the point or behind it.
  have hsome : ∀ fraction : List Char, whole ++ fraction ≠ [] →
      (whole.isEmpty && fraction.isEmpty) = false := by
    intro fraction hne
    rw [← Bool.not_eq_true, Bool.and_eq_true, List.isEmpty_iff, List.isEmpty_iff]
    rintro ⟨rfl, rfl⟩
    exact hne rfl
  unfold unsigned? spanDigits Decimal.unsignedChars
  cases fraction with
  | none =>
    dsimp only [Option.elim]
    rw [List.append_nil, List.takeWhile_eq_self_iff.mpr hwhole,
      List.dropWhile_eq_nil_iff.mpr hwhole]
    dsimp only
    rw [hsome [] hne]
    rfl
  | some ds =>
    have hds : ∀ c ∈ ds, c.isDigit = true := fun c hc => hdigits c (List.mem_append_right _ hc)
    have hpoint : ∀ c ∈ ('.' :: ds).head?, c.isDigit = false := by simp
    obtain ⟨htake, hdrop⟩ := span_append hwhole hpoint
    dsimp only [Option.elim]
    rw [htake, hdrop]
    simp only [List.takeWhile_eq_self_iff.mpr hds, List.dropWhile_eq_nil_iff.mpr hds, hsome ds hne]
    show some (Binary64.ofDecimal negative (Numeral.value (whole ++ ds)) (0 - ds.length)) = _
    rw [Int.zero_sub]
    rfl

/-- Digits with at most one point are all that is read of the characters of a double. -/
theorem exists_of_unsigned? (hs : ∀ c ∈ s, inDouble c = true)
    (h : unsigned? negative s = some x) : ∃ d : Decimal, d.IsProper ∧ d.negative = negative
      ∧ d.unsignedChars = s ∧ x = d.nearest := by
  unfold unsigned? spanDigits at h
  dsimp only at h
  have hsplit : s.takeWhile Char.isDigit ++ s.dropWhile Char.isDigit = s :=
    List.takeWhile_append_dropWhile
  have hwhole : ∀ c ∈ s.takeWhile Char.isDigit, c.isDigit = true :=
    fun c hc => List.mem_takeWhile_imp hc
  generalize s.takeWhile Char.isDigit = whole at *
  generalize s.dropWhile Char.isDigit = rest at *
  subst hsplit
  rw [List.forall_mem_append] at hs
  -- Nothing but an exponent may follow the digits, and it would begin with a letter.
  have hend : ∀ fraction rest' : List Char, (∀ c ∈ rest', inDouble c = true) →
      (if whole.isEmpty && fraction.isEmpty then none
        else (exponent? rest').bind fun e => some (Binary64.ofDecimal negative
          (Numeral.value (whole ++ fraction)) (e - fraction.length))) = some x →
      rest' = [] ∧ whole ++ fraction ≠ [] ∧ x = Binary64.ofDecimal negative
        (Numeral.value (whole ++ fraction)) (-(fraction.length : Int)) := by
    intro fraction rest' hrest' h
    rw [exponent?_of_inDouble hrest'] at h
    split_ifs at h with hempty hrest
    · rw [Bool.and_eq_true, List.isEmpty_iff, List.isEmpty_iff] at hempty
      refine ⟨hrest, fun hnil => hempty (List.append_eq_nil_iff.mp hnil), ?_⟩
      rw [← Int.zero_sub]
      exact (Option.some.inj h).symm
    · exact absurd h (by rintro ⟨⟩)
  split at h
  · next fraction =>
    obtain ⟨hrest, hne, hx⟩ := hend (fraction.takeWhile Char.isDigit)
      (fraction.dropWhile Char.isDigit)
      (fun c hc => hs.2 c (List.mem_cons_of_mem _ ((List.dropWhile_suffix _).subset hc))) h
    have hfraction : fraction.takeWhile Char.isDigit = fraction := by
      rw [← List.append_nil (List.takeWhile _ _), ← hrest, List.takeWhile_append_dropWhile]
    rw [hfraction] at hne hx
    refine ⟨⟨negative, whole, some fraction⟩, ⟨fun c hc => ?_, hne⟩, rfl, rfl, hx⟩
    rcases List.mem_append.mp hc with hc | hc
    · exact hwhole c hc
    · exact List.mem_takeWhile_imp (hfraction.symm ▸ hc)
  · obtain ⟨rfl, hne, hx⟩ := hend [] rest hs.2 h
    refine ⟨⟨negative, whole, none⟩, ⟨fun c hc => ?_, hne⟩, rfl, rfl, hx⟩
    exact hwhole c
      (by rwa [Decimal.digits, Decimal.places, Option.getD_none, List.append_nil] at hc)

/-! ### Signs -/

theorem inDouble_of_isDigit {c : Char} (h : c.isDigit = true) : inDouble c = true := by
  unfold inDouble
  rw [h]
  rfl

/-- No character of a double is a letter. -/
theorem toLower_of_inDouble {c : Char} (h : inDouble c = true) : c.toLower = c := by
  unfold inDouble at h
  simp only [Bool.or_eq_true, beq_iff_eq] at h
  rcases h with (h | rfl) | rfl
  · exact of_isDigit (P := fun c => c.toLower = c) (by decide) h
  · rfl
  · rfl

namespace Decimal

variable {d : Decimal}

theorem IsProper.inDouble_unsignedChars (hd : d.IsProper) :
    ∀ c ∈ d.unsignedChars, c ≠ '-' ∧ inDouble c = true := by
  have hdigit : ∀ {c : Char}, c ∈ d.digits → c ≠ '-' ∧ inDouble c = true := by
    intro c hc
    have hc := hd.isDigit c hc
    exact ⟨by rintro rfl; exact absurd hc (by decide), inDouble_of_isDigit hc⟩
  intro c hc
  rcases List.mem_append.mp hc with hc | hc
  · exact hdigit (List.mem_append_left _ hc)
  · cases hfraction : d.fraction with
    | none =>
      rw [hfraction] at hc
      exact absurd hc List.not_mem_nil
    | some ds =>
      rw [hfraction] at hc
      rcases List.mem_cons.mp hc with rfl | hc
      · decide
      · exact hdigit (List.mem_append_right _ (by rwa [places, hfraction]))

theorem IsProper.inDouble_chars (hd : d.IsProper) : ∀ c ∈ d.chars, inDouble c = true := by
  intro c hc
  unfold chars at hc
  split_ifs at hc
  · rcases List.mem_cons.mp hc with rfl | hc
    · decide
    · exact (hd.inDouble_unsignedChars c hc).2
  · exact (hd.inDouble_unsignedChars c hc).2

theorem IsProper.spanSign_chars (hd : d.IsProper) :
    spanSign d.chars = (d.negative, d.unsignedChars) := by
  have hchars := hd.inDouble_unsignedChars
  unfold chars
  cases d.negative with
  | true => rfl
  | false =>
    rw [if_neg Bool.false_ne_true]
    unfold spanSign
    split
    · next heq => exact absurd rfl (hchars '-' (heq ▸ List.mem_cons_self)).1
    · next heq => exact absurd (hchars '+' (heq ▸ List.mem_cons_self)).2 (by decide)
    · rfl

end Decimal

/-- Without letters a double is neither an infinity nor a NaN by name. -/
theorem binary64?_of_inDouble (htoken : ∀ c ∈ token, inDouble c = true) :
    binary64? token = unsigned? (spanSign token).1 (spanSign token).2
      ∧ ∀ c ∈ (spanSign token).2, inDouble c = true := by
  have hr : ∀ c ∈ (spanSign token).2, inDouble c = true := by
    unfold spanSign
    split
    · exact fun c hc => htoken c (List.mem_cons_of_mem _ hc)
    · exact fun c hc => htoken c (List.mem_cons_of_mem _ hc)
    · exact htoken
  refine ⟨?_, hr⟩
  have hsame : (spanSign token).2.map Char.toLower = (spanSign token).2 :=
    (List.map_congr_left (g := id) fun c hc => toLower_of_inDouble (hr c hc)).trans (List.map_id _)
  -- Infinity and what is no number are written with letters that no decimal has.
  have hname : ∀ name : List Char, name.all inDouble = false → (spanSign token).2 ≠ name := by
    rintro name hall rfl
    rw [List.all_eq_true.mpr hr] at hall
    exact Bool.noConfusion hall
  unfold binary64?
  dsimp only
  rw [hsame, if_neg (not_or.mpr ⟨hname _ (by decide), hname _ (by decide)⟩),
    if_neg (hname _ (by decide))]

theorem binary64?_eq_some_iff (htoken : ∀ c ∈ token, inDouble c = true) :
    binary64? token = some x ↔ ∃ d : Decimal, d.IsProper ∧ d.chars = token ∧ x = d.nearest := by
  obtain ⟨hread, hr⟩ := binary64?_of_inDouble htoken
  rw [hread]
  constructor
  · intro h
    obtain ⟨d, hd, hnegative, hchars, hx⟩ := exists_of_unsigned? hr h
    refine ⟨d, hd, ?_, hx⟩
    unfold Decimal.chars
    rw [hnegative, hchars]
    unfold spanSign
    split
    · rfl
    · exact absurd (htoken '+' List.mem_cons_self) (by decide)
    · rfl
  · rintro ⟨d, hd, rfl, rfl⟩
    rw [hd.spanSign_chars]
    exact hd.unsigned?_eq

/-! ### What a bare value denotes -/

theorem classify_of_int64? {i : Int64} (h : int64? token = some i) :
    classify token = .integer i := by
  unfold classify
  rw [h]

theorem classify_of_chars {d : Decimal} (hd : d.IsProper) (h : int64? d.chars = none) :
    classify d.chars = .real d.nearest := by
  have hread := (binary64?_eq_some_iff hd.inDouble_chars).mpr ⟨d, hd, rfl, rfl⟩
  unfold classify
  rw [h, if_pos (List.all_eq_true.mpr hd.inDouble_chars), hread]

/-- **What is no number stays a text** with all of its characters. -/
theorem classify_of_no_number (h : int64? token = none)
    (hdecimal : ∀ d : Decimal, d.IsProper → d.chars ≠ token) :
    classify token = .text (.ofList token) := by
  have hread : (if token.all inDouble then binary64? token else none) = none := by
    split_ifs with hall
    · rw [Option.eq_none_iff_forall_ne_some]
      intro x hx
      obtain ⟨d, hd, hchars, -⟩ := (binary64?_eq_some_iff (List.all_eq_true.mp hall)).mp hx
      exact hdecimal d hd hchars
    · rfl
  unfold classify
  rw [h, hread]

/-- **What becomes a double** is a decimal that is no integer of sixty-four bits. -/
theorem classify_eq_real_iff : classify token = .real x ↔
    int64? token = none ∧ ∃ d : Decimal, d.IsProper ∧ d.chars = token ∧ x = d.nearest := by
  constructor
  · intro h
    cases hint : int64? token with
    | some i =>
      rw [classify_of_int64? hint] at h
      exact absurd h (by rintro ⟨⟩)
    | none =>
      refine ⟨rfl, ?_⟩
      by_contra hnone
      rw [classify_of_no_number hint fun d hd hchars => ?_] at h
      · exact absurd h (by rintro ⟨⟩)
      · rw [← hchars, classify_of_chars hd (hchars ▸ hint)] at h
        exact hnone ⟨d, hd, hchars, (Operand.real.inj h).symm⟩
  · rintro ⟨hint, d, hd, rfl, rfl⟩
    exact classify_of_chars hd hint

end GraphIndex.Language
