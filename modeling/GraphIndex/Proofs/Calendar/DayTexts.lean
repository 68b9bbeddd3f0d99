import GraphIndex.Proofs.Calendar.DayNumbers
import GraphIndex.Proofs.Query.Keys
import GraphIndex.Proofs.Query.Language.Tokens
import GraphIndex.Query.Moment
import Mathlib.Data.List.TakeWhile

/-!
# Dates and their texts

A date is written with four digits for the year and two for the month and the day. The readers take
such a text apart again: it denotes the start of its day (`Moment.ofText_toText`). It is also the
key under which the store counts the days, so that two days share a key only if they are the same
(`Period.label_day_eq_iff`).
-/

namespace GraphIndex

open Calendar

/-! ### Digits -/

section

variable {least width n n' : Nat} {rest : List Char}

theorem length_paddedDigits (hwidth : 0 < width) (hn : n < 10 ^ width) :
    (paddedDigits width n).length = width := by
  have hle := (Nat.length_toDigits_le_iff (by decide) hwidth).mpr hn
  unfold paddedDigits
  rw [List.length_append, List.length_replicate, Nat.sub_add_cancel hle]

theorem isDigit_paddedDigits (width n : Nat) : ∀ c ∈ paddedDigits width n, c.isDigit = true := by
  intro c hc
  rcases List.mem_append.mp hc with hc | hc
  · rw [List.eq_of_mem_replicate hc]
    rfl
  · exact Json.isDigit_toDigits n c hc

theorem value_paddedDigits (width n : Nat) : Numeral.value (paddedDigits width n) = n := by
  show Nat.ofDigitChars 10 (List.replicate _ '0' ++ Nat.toDigits 10 n) 0 = n
  rw [Nat.ofDigitChars_append, Nat.ofDigitChars_replicate_zero, Nat.mul_zero,
    Nat.ofDigitChars_ten_toDigits]

theorem exists_cons_paddedDigits (width n : Nat) :
    ∃ c ds, c.isDigit = true ∧ paddedDigits width n = c :: ds := by
  cases hdigits : paddedDigits width n with
  | nil => exact absurd (List.append_eq_nil_iff.mp hdigits).2 Nat.toDigits_ne_nil
  | cons c ds =>
    exact ⟨c, ds, isDigit_paddedDigits width n c (hdigits ▸ List.mem_cons_self), rfl⟩

theorem paddedDigits_append_inj (hwidth : 0 < width) (hn : n < 10 ^ width) (hn' : n' < 10 ^ width)
    {rest' : List Char} (h : paddedDigits width n ++ rest = paddedDigits width n' ++ rest') :
    n = n' ∧ rest = rest' := by
  have hlength := (length_paddedDigits hwidth hn).trans (length_paddedDigits hwidth hn').symm
  obtain ⟨hdigits, hrest⟩ := List.append_inj h hlength
  rw [← value_paddedDigits width n, hdigits, value_paddedDigits]
  exact ⟨rfl, hrest⟩

/-! ### Readers of digits -/

theorem not_isBlank_of_isDigit {c : Char} (h : c.isDigit = true) : Text.isBlank c = false :=
  Language.of_isDigit (P := fun c => Text.isBlank c = false) (by decide) h

theorem readDigits_paddedDigits (hleast : least ≤ width) (hwidth : 0 < width)
    (hn : n < 10 ^ width) :
    readDigits least width (paddedDigits width n ++ rest) = some (n, rest) := by
  have hlength := length_paddedDigits hwidth hn
  have hspan : ((paddedDigits width n ++ rest).take width).takeWhile Char.isDigit
      = paddedDigits width n := by
    rw [List.take_append_of_le_length hlength.ge, List.take_of_length_le hlength.le]
    exact List.takeWhile_eq_self_iff.mpr (isDigit_paddedDigits width n)
  unfold readDigits
  rw [hspan]
  dsimp only
  rw [hlength, if_neg (by omega), value_paddedDigits, List.drop_left' hlength]

theorem skipBlanks_paddedDigits (width n : Nat) (rest : List Char) :
    skipBlanks (paddedDigits width n ++ rest) = paddedDigits width n ++ rest := by
  obtain ⟨c, ds, hc, hdigits⟩ := exists_cons_paddedDigits width n
  rw [hdigits, List.cons_append]
  exact List.dropWhile_cons_of_neg (by rw [not_isBlank_of_isDigit hc]; decide)

theorem readShort_paddedDigits (hn : n < 100) :
    readShort (paddedDigits 2 n ++ rest) = some (n, rest) := by
  unfold readShort
  rw [skipBlanks_paddedDigits]
  exact readDigits_paddedDigits (by decide) (by decide) hn

theorem readYear_paddedDigits (hn : n < 10000) :
    readYear (paddedDigits 4 n ++ rest) = some ((n : Int), rest) := by
  obtain ⟨c, ds, hc, hdigits⟩ := exists_cons_paddedDigits 4 n
  -- The reader also takes a sign, but padded digits begin with a digit.
  have hread : readDigits 1 4 (paddedDigits 4 n ++ rest) = some (n, rest) :=
    readDigits_paddedDigits (by decide) (by decide) hn
  unfold readYear
  rw [skipBlanks_paddedDigits, hdigits, List.cons_append]
  rw [hdigits, List.cons_append] at hread
  split
  · next heq =>
    obtain ⟨rfl, -⟩ := List.cons.inj heq
    exact absurd hc (by decide)
  · next heq =>
    obtain ⟨rfl, -⟩ := List.cons.inj heq
    exact absurd hc (by decide)
  · rw [hread]
    rfl

end

/-- A reader that succeeds hands on what it has read. -/
theorem bind_of_eq_some {α β : Type} {o : Option α} {a : α} {f : α → Option β} (h : o = some a) :
    (o >>= f) = f a := by
  rw [h]
  rfl

/-! ### Written dates -/

namespace Calendar.Date

/-- The year, the month and the day with hyphens between them. -/
def chars (d : Date) : List Char :=
  yearChars d.year ++ '-' :: (paddedDigits 2 d.month ++ '-' :: paddedDigits 2 d.day)

/-- The text of a date. -/
def toText (d : Date) : String := .ofList d.chars

/-- Whether the fields of a date fit their places: four digits for the year and two each for the
month and the day. -/
structure Fits (d : Date) : Prop where
  year : 0 ≤ d.year ∧ d.year < 10000
  month : d.month < 100
  day : d.day < 100

variable {d d' : Date}

theorem fits_of_isValid (h : d.isValid = true) (hyear : 0 ≤ d.year ∧ d.year < 10000) : d.Fits := by
  obtain ⟨hmonth, hday⟩ := month_le_and_day_le h
  exact ⟨hyear, by omega, by omega⟩

theorem Fits.chars_eq (h : d.Fits) : d.chars = paddedDigits 4 d.year.natAbs
    ++ '-' :: (paddedDigits 2 d.month ++ '-' :: paddedDigits 2 d.day) := by
  unfold chars yearChars
  rw [if_neg (not_lt.mpr h.year.1)]

theorem Fits.exists_cons_chars (h : d.Fits) : ∃ c cs, c.isDigit = true ∧ d.chars = c :: cs := by
  obtain ⟨c, ds, hc, hdigits⟩ := exists_cons_paddedDigits 4 d.year.natAbs
  exact ⟨c, _, hc, by rw [h.chars_eq, hdigits]; rfl⟩

theorem Fits.forall_chars (h : d.Fits) : ∀ c ∈ d.chars, c.isDigit = true ∨ c = '-' := by
  have hdigits := isDigit_paddedDigits
  rw [h.chars_eq]
  simp only [List.mem_append, List.mem_cons]
  rintro c (hc | rfl | hc | rfl | hc)
  exacts [Or.inl (hdigits _ _ c hc), Or.inr rfl, Or.inl (hdigits _ _ c hc), Or.inr rfl,
    Or.inl (hdigits _ _ c hc)]

/-- Only one date with a year of four digits has a text, among all dates up to the year 9999. -/
theorem Fits.eq_of_toText_eq (h : d.Fits) (hyear : d'.year < 10000) (hmonth : d'.month < 100)
    (hday : d'.day < 100) (heq : d'.toText = d.toText) : d' = d := by
  have hchars : d'.chars = d.chars := String.ofList_injective heq
  rcases lt_or_ge d'.year 0 with hneg | hnonneg
  · -- A year before year zero has a sign, not a digit, in front.
    obtain ⟨c, cs, hc, hcons⟩ := h.exists_cons_chars
    have hsign : d'.chars = '-' :: (paddedDigits 3 d'.year.natAbs
        ++ '-' :: (paddedDigits 2 d'.month ++ '-' :: paddedDigits 2 d'.day)) := by
      unfold chars yearChars
      rw [if_pos hneg]
      rfl
    rw [hsign, hcons] at hchars
    obtain ⟨rfl, -⟩ := List.cons.inj hchars
    exact absurd hc (by decide)
  · have h' : d'.Fits := ⟨⟨hnonneg, hyear⟩, hmonth, hday⟩
    have hbound : ∀ {d : Date}, d.Fits → d.year.natAbs < 10 ^ 4 := fun h => by
      have := h.year
      omega
    rw [h'.chars_eq, h.chars_eq] at hchars
    obtain ⟨hy, hrest⟩ := paddedDigits_append_inj (by decide) (hbound h') (hbound h) hchars
    obtain ⟨hm, hrest⟩ := paddedDigits_append_inj (by decide) hmonth h.month
      (List.cons.inj hrest).2
    have hd := (List.cons.inj hrest).2
    rw [← List.append_nil (paddedDigits 2 d'.day), ← List.append_nil (paddedDigits 2 d.day)] at hd
    obtain ⟨hd, -⟩ := paddedDigits_append_inj (by decide) hday h.day hd
    have hy' : d'.year = d.year := by
      have := h.year
      omega
    calc d' = ⟨d'.year, d'.month, d'.day⟩ := rfl
      _ = d := by rw [hy', hm, hd]

/-! ### Reading a date -/

theorem readDay_chars {rest : List Char} (hvalid : d.isValid = true) (h : d.Fits) :
    readDay (d.chars ++ rest) = some (d.dayNumber, rest) := by
  obtain ⟨hyear, hlt⟩ := h.year
  have hnumber : dayNumber? (d.year.natAbs : Int) d.month d.day = some d.dayNumber := by
    have hinRange : yearInRange d.year = true := decide_eq_true (by omega)
    unfold dayNumber?
    rw [Int.natAbs_of_nonneg hyear]
    dsimp only
    rw [hinRange, hvalid]
    rfl
  rw [h.chars_eq, List.append_assoc, List.cons_append, List.append_assoc, List.cons_append]
  unfold readDay
  simp only [readYear_paddedDigits (by omega : d.year.natAbs < 10000),
    readShort_paddedDigits h.month, readShort_paddedDigits h.day, readChar, hnumber, if_true,
    Option.bind_eq_bind, Option.bind_some]

theorem readWithOffset?_chars (h : d.Fits) : readWithOffset? d.chars = none := by
  have hyear : d.year.natAbs < 10 ^ 4 := by
    have := h.year
    omega
  have hday : readDigits 2 2 (paddedDigits 2 d.day) = some (d.day, []) := by
    rw [← List.append_nil (paddedDigits 2 d.day)]
    exact readDigits_paddedDigits (by decide) (by decide) h.day
  rw [h.chars_eq]
  unfold readWithOffset?
  refine (bind_of_eq_some (readDigits_paddedDigits (by decide) (by decide) hyear)).trans ?_
  refine (bind_of_eq_some rfl).trans ?_
  refine (bind_of_eq_some (readDigits_paddedDigits (by decide) (by decide) h.month)).trans ?_
  refine (bind_of_eq_some rfl).trans ?_
  exact (bind_of_eq_some hday).trans rfl

/-- A date alone is read by the last of the four readers. -/
theorem readInstant?_chars (hvalid : d.isValid = true) (h : d.Fits) :
    readInstant? d.chars = some (d.dayNumber * dayMs) := by
  have hday : readDay d.chars = some (d.dayNumber, []) := by
    rw [← List.append_nil d.chars]
    exact readDay_chars hvalid h
  have hlocal : readLocal? d.chars = none := by
    unfold readLocal?
    rw [hday]
    rfl
  have hspaced : readSpaced? d.chars = none := by
    unfold readSpaced?
    rw [hday]
    rfl
  have hdate : readDate? d.chars = some (d.dayNumber * dayMs) := by
    unfold readDate?
    rw [hday]
    rfl
  unfold readInstant?
  rw [readWithOffset?_chars h, hlocal, hspaced, hdate]
  rfl

end Calendar.Date

/-- A text without capitals is its own lowercase. -/
theorem Text.lowerFrom_eq_self {before s : List Char}
    (h : ∀ c ∈ s, c.toNat < 0x80 ∧ c.toLower = c) : Text.lowerFrom before s = s := by
  induction s generalizing before with
  | nil => rfl
  | cons c s ih =>
    obtain ⟨hsmall, hlower⟩ := h c List.mem_cons_self
    unfold Text.lowerFrom
    dsimp only
    rw [if_neg (by omega), ih fun d hd => h d (List.mem_cons_of_mem c hd)]
    unfold Text.lowerChar
    rw [if_pos hsmall, hlower]
    rfl

namespace Moment

variable {d : Date}

theorem trim_toText (h : d.Fits) : Text.trim d.toText = d.toText := by
  obtain ⟨c, cs, -, hchars⟩ := h.exists_cons_chars
  have hsolid : Language.IsSolid d.chars := by
    refine Language.isSolid_of_forall (by rw [hchars]; exact List.cons_ne_nil c cs) fun c hc => ?_
    rcases h.forall_chars c hc with hdigit | rfl
    · exact not_isBlank_of_isDigit hdigit
    · rfl
  unfold Text.trim Date.toText
  rw [String.toList_ofList, hsolid.trimList_eq]

theorem lowercase_toText (h : d.Fits) : Text.lowercase d.toText = d.toText := by
  unfold Text.lowercase Date.toText
  rw [String.toList_ofList, Text.lowerFrom_eq_self]
  intro c hc
  rcases h.forall_chars c hc with hdigit | rfl
  · exact Language.of_isDigit (P := fun c => c.toNat < 0x80 ∧ c.toLower = c) (by decide) hdigit
  · decide

/-- A date is no number of days, weeks, months or years: more than a letter follows its digits. -/
theorem relative?_chars (h : d.Fits) : relative? d.chars = none := by
  obtain ⟨c, ds, -, hmonth⟩ := exists_cons_paddedDigits 2 d.month
  have hdigits : ∀ c ∈ paddedDigits 4 d.year.natAbs, Text.isDecimalDigit c = true := fun c hc =>
    Text.isDecimalDigit_of_isDigit (isDigit_paddedDigits _ _ c hc)
  have hdrop : ∀ rest, (paddedDigits 4 d.year.natAbs ++ '-' :: rest).dropWhile Text.isDecimalDigit
      = '-' :: rest := fun rest => (Language.span_append hdigits (by rintro c ⟨⟩; rfl)).2
  rw [h.chars_eq, hmonth]
  unfold relative?
  rw [hdrop]
  rfl

/-- **A written date denotes the start of its day.** -/
theorem ofText_toText (now : Int) (hvalid : d.isValid = true)
    (hyear : 0 ≤ d.year ∧ d.year < 10000) :
    ofText now d.toText = .ok (Int64.ofInt (d.dayNumber * dayMs)) := by
  have h := Date.fits_of_isValid hvalid hyear
  have hne : ∀ {w : String}, w.toList.head?.all (!·.isDigit) = true → d.toText ≠ w := by
    rintro w hw rfl
    obtain ⟨c, cs, hc, hchars⟩ := h.exists_cons_chars
    unfold Date.toText at hw
    rw [String.toList_ofList, hchars, List.head?_cons, Option.all_some, hc] at hw
    exact absurd hw (by decide)
  have htext : d.toText.toList = d.chars := String.toList_ofList
  unfold ofText
  dsimp only
  rw [trim_toText h, lowercase_toText h, if_neg (hne (by decide)), if_neg (hne (by decide)), htext,
    relative?_chars h, Date.readInstant?_chars hvalid h]

end Moment

/-! ### Days as keys -/

namespace Calendar.Date

theorem isShifted_iff {d : Date} : isShifted d = true ↔
    d.month = 3 ∧ d.day = 1 ∧ d.year % 400 = 300 ∧ d.year ≤ 300 := by
  unfold isShifted
  simp only [Bool.and_eq_true, beq_iff_eq, decide_eq_true_eq, and_assoc]

end Calendar.Date

theorem Period.label_day (n : Int) : Period.day.label n = (storeDate n).toText := by
  unfold Period.label dateText Date.toText Date.chars
  simp [DatePart.chars]

/-- **Two days share a key** only if they are the same, and only the days that are counted under
their own date have a key of this form. -/
theorem Period.label_day_eq_iff {n : Int} {d : Date} (hvalid : d.isValid = true)
    (hyear : 0 ≤ d.year ∧ d.year < 10000) (hn : (Date.ofDayNumber n).year < 10000) :
    Period.day.label n = d.toText ↔ n = d.dayNumber ∧ isShifted d = false := by
  have hfits := Date.fits_of_isValid hvalid hyear
  have hvalid' := Date.isValid_ofDayNumber n
  obtain ⟨hmonth, hday⟩ := Date.month_le_and_day_le hvalid'
  rw [Period.label_day]
  unfold storeDate
  dsimp only
  by_cases hshifted : isShifted (Date.ofDayNumber n) = true
  · rw [if_pos hshifted]
    constructor
    · intro htext
      -- The year 300 and its like have no February 29.
      have heq : ⟨(Date.ofDayNumber n).year, 2, 29⟩ = d :=
        hfits.eq_of_toText_eq hn (by decide : 2 < 100) (by decide : 29 < 100) htext
      obtain ⟨-, -, hcentury, -⟩ := Date.isShifted_iff.mp hshifted
      have hleap : isLeapYear (Date.ofDayNumber n).year = false := by
        rw [← Bool.not_eq_true, Date.isLeapYear_iff]
        omega
      rw [← heq, Date.isValid_iff] at hvalid
      have hfebruary : 29 ≤ monthLength (isLeapYear (Date.ofDayNumber n).year) 2 := hvalid.2
      rw [hleap] at hfebruary
      exact absurd hfebruary (by decide)
    · rintro ⟨rfl, hplain⟩
      rw [Date.ofDayNumber_dayNumber hvalid, hplain] at hshifted
      exact absurd hshifted (by decide)
  · rw [if_neg hshifted]
    constructor
    · intro htext
      have heq := hfits.eq_of_toText_eq hn (by omega) (by omega) htext
      rw [heq] at hshifted
      refine ⟨?_, eq_false_of_ne_true hshifted⟩
      rw [← heq, Date.dayNumber_ofDayNumber]
    · rintro ⟨rfl, -⟩
      rw [Date.ofDayNumber_dayNumber hvalid]

end GraphIndex
