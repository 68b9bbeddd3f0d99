import GraphIndex.Json.Reader
import GraphIndex.Json.Writer
import Mathlib.Data.List.Basic
import Mathlib.Data.Nat.Digits.Defs

/-!
# Numbers in JSON texts

A number is read up to the first character that cannot belong to one: what follows it makes no
difference (`Json.scanNumber_append`). The text of an integer of sixty-four bits reads back
(`Json.scanNumber_intChars`).
-/

namespace GraphIndex

namespace Json

/-! ### Where a number ends -/

/-- Whether a character may belong to a number. -/
def isNumberChar (c : Char) : Bool :=
  c.isDigit || c == '.' || c == 'e' || c == 'E' || c == '-' || c == '+'

/-- Whether a number that stands before a text ends there. -/
def EndsNumber (s : List Char) : Prop := ∀ c ∈ s.head?, isNumberChar c = false

variable {rest : List Char}

theorem endsNumber_nil : EndsNumber [] := fun _ h => absurd h (by rintro ⟨⟩)

theorem endsNumber_cons {c : Char} (h : isNumberChar c = false) (s : List Char) :
    EndsNumber (c :: s) := by
  intro d hd
  rwa [← Option.some.inj hd]

theorem EndsNumber.ne {c d : Char} {r : List Char} (h : EndsNumber (c :: r))
    (hd : isNumberChar d = true) : c ≠ d := by
  rintro rfl
  exact Bool.false_ne_true ((h c rfl).symm.trans hd)

theorem EndsNumber.not_isDigit {c : Char} {r : List Char} (h : EndsNumber (c :: r)) :
    c.isDigit = false := by
  have hc := h c rfl
  unfold isNumberChar at hc
  simp only [Bool.or_eq_false_iff] at hc
  exact hc.1.1.1.1.1

/-- What is read, before another text. -/
def followedBy (rest : List Char) (read : Option (JsonNumber × List Char)) :
    Option (JsonNumber × List Char) :=
  read.map fun (n, r) => (n, r ++ rest)

theorem spanDigits_of_endsNumber (hrest : EndsNumber rest) :
    Numeral.spanDigits rest = ([], rest) := by
  cases rest with
  | nil => rfl
  | cons c r =>
    have hc : ¬ c.isDigit = true := by rw [hrest.not_isDigit]; decide
    unfold Numeral.spanDigits
    rw [List.takeWhile_cons_of_neg hc, List.dropWhile_cons_of_neg hc]

theorem spanDigits_append (hrest : EndsNumber rest) (s : List Char) :
    Numeral.spanDigits (s ++ rest)
      = ((Numeral.spanDigits s).1, (Numeral.spanDigits s).2 ++ rest) := by
  induction s with
  | nil => exact spanDigits_of_endsNumber hrest
  | cons c s ih =>
    unfold Numeral.spanDigits at ih ⊢
    obtain ⟨htake, hdrop⟩ := Prod.mk.inj ih
    by_cases hc : c.isDigit = true
    · rw [List.cons_append, List.takeWhile_cons_of_pos hc, List.dropWhile_cons_of_pos hc,
        List.takeWhile_cons_of_pos hc, List.dropWhile_cons_of_pos hc, htake, hdrop]
    · rw [List.cons_append, List.takeWhile_cons_of_neg hc, List.dropWhile_cons_of_neg hc,
        List.takeWhile_cons_of_neg hc, List.dropWhile_cons_of_neg hc]
      rfl

theorem spanSign_append (hrest : EndsNumber rest) (s : List Char) :
    Numeral.spanSign (s ++ rest)
      = ((Numeral.spanSign s).1, (Numeral.spanSign s).2 ++ rest) := by
  -- What ends a number is no sign, so that the sign is found in the number or not at all.
  have hplain : ∀ c r, c ≠ '-' → c ≠ '+' → Numeral.spanSign (c :: r) = (false, c :: r) := by
    intro c r hminus hplus
    unfold Numeral.spanSign
    split
    · next heq => exact absurd (List.cons.inj heq).1 hminus
    · next heq => exact absurd (List.cons.inj heq).1 hplus
    · rfl
  cases s with
  | nil =>
    cases rest with
    | nil => rfl
    | cons c r => exact hplain c r (hrest.ne (by decide)) (hrest.ne (by decide))
  | cons c s =>
    by_cases hminus : c = '-'
    · subst hminus
      rfl
    by_cases hplus : c = '+'
    · subst hplus
      rfl
    · rw [List.cons_append, hplain c _ hminus hplus, hplain c _ hminus hplus]
      rfl

theorem scanExponent_append (hrest : EndsNumber rest) (negative : Bool) (m : Nat) (e : Int)
    (s : List Char) :
    scanExponent negative m e (s ++ rest) = followedBy rest (scanExponent negative m e s) := by
  unfold scanExponent followedBy
  rw [spanSign_append hrest]
  dsimp only
  rw [spanDigits_append hrest]
  dsimp only
  split
  · rfl
  · split
    · split <;> rfl
    · cases realNumber? negative m _ <;> rfl

/-- Reads what follows the digits of a fraction: an exponent, or the number ends. -/
def scanAfterFraction (negative : Bool) (m : Nat) (e : Int) :
    List Char → Option (JsonNumber × List Char)
  | 'e' :: r | 'E' :: r => scanExponent negative m e r
  | r => (realNumber? negative m e).map fun n => (n, r)

theorem scanAfterFraction_of_ne {negative : Bool} {m : Nat} {e : Int} {s : List Char}
    (h : ∀ c ∈ s.head?, c ≠ 'e' ∧ c ≠ 'E') :
    scanAfterFraction negative m e s = (realNumber? negative m e).map fun n => (n, s) := by
  unfold scanAfterFraction
  split
  · exact absurd rfl (h 'e' rfl).1
  · exact absurd rfl (h 'E' rfl).2
  · rfl

theorem EndsNumber.head_append {P : Char → Prop} (hrest : EndsNumber rest) {s : List Char}
    (h : ∀ c ∈ s.head?, P c) (hP : ∀ c, isNumberChar c = false → P c) :
    ∀ c ∈ (s ++ rest).head?, P c := by
  cases s with
  | nil => exact fun c hc => hP c (hrest c hc)
  | cons d s => exact h

theorem followedBy_map (read : Option JsonNumber) (s : List Char) :
    followedBy rest (read.map fun n => (n, s)) = read.map fun n => (n, s ++ rest) := by
  cases read <;> rfl

theorem scanAfterFraction_append (hrest : EndsNumber rest) (negative : Bool) (m : Nat) (e : Int)
    (s : List Char) :
    scanAfterFraction negative m e (s ++ rest)
      = followedBy rest (scanAfterFraction negative m e s) := by
  by_cases h : ∀ c ∈ s.head?, c ≠ 'e' ∧ c ≠ 'E'
  · have happend := hrest.head_append h fun c hc => by
      constructor <;> rintro rfl <;> exact absurd hc (by decide)
    rw [scanAfterFraction_of_ne h, scanAfterFraction_of_ne happend, followedBy_map]
  · cases s with
    | nil => exact absurd (fun c hc => absurd hc (by rintro ⟨⟩)) h
    | cons c s =>
      have hc : c = 'e' ∨ c = 'E' := by
        by_contra hne
        rw [not_or] at hne
        exact h fun d hd => Option.some.inj hd ▸ hne
      rcases hc with rfl | rfl <;> exact scanExponent_append hrest negative m e s

theorem scanFraction_point (negative : Bool) (m dropped : Nat) (s : List Char) :
    scanFraction negative m dropped ('.' :: s) =
      if (Numeral.spanDigits s).1.isEmpty then none
      else scanAfterFraction negative (extend m (Numeral.spanDigits s).1).1
        (dropped - (extend m (Numeral.spanDigits s).1).2) (Numeral.spanDigits s).2 := by
  rw [scanFraction]
  dsimp only
  split
  · rfl
  · generalize (Numeral.spanDigits s).2 = r
    split
    · rfl
    · rfl
    · next hlower hupper =>
      rw [scanAfterFraction_of_ne]
      · cases realNumber? negative _ _ <;> rfl
      · intro c hc
        cases r with
        | nil => exact absurd hc (by rintro ⟨⟩)
        | cons d r =>
          obtain rfl := Option.some.inj hc
          exact ⟨fun h => hlower r (by rw [h]), fun h => hupper r (by rw [h])⟩

/-- A number without point and exponent. -/
theorem scanFraction_of_ne {negative : Bool} {m dropped : Nat} {s : List Char}
    (h : ∀ c ∈ s.head?, c ≠ '.' ∧ c ≠ 'e' ∧ c ≠ 'E') :
    scanFraction negative m dropped s =
      if dropped = 0 ∧ !negative then some (.integer m, s)
      else if dropped = 0 ∧ 0 < m ∧ m ≤ Nat.pow 2 63 then some (.integer (-m), s)
      else (realNumber? negative m dropped).map fun n => (n, s) := by
  rw [scanFraction]
  · split
    · rfl
    · split
      · rfl
      · cases realNumber? negative m dropped <;> rfl
  · rintro r rfl
    exact (h '.' rfl).1 rfl
  · rintro r rfl
    exact (h 'e' rfl).2.1 rfl
  · rintro r rfl
    exact (h 'E' rfl).2.2 rfl

theorem EndsNumber.scanFraction (hrest : EndsNumber rest) (negative : Bool) (m dropped : Nat) :
    Json.scanFraction negative m dropped rest =
      if dropped = 0 ∧ !negative then some (.integer m, rest)
      else if dropped = 0 ∧ 0 < m ∧ m ≤ Nat.pow 2 63 then some (.integer (-m), rest)
      else (realNumber? negative m dropped).map fun n => (n, rest) := by
  refine scanFraction_of_ne fun c hc => ?_
  have hnot := hrest c hc
  refine ⟨?_, ?_, ?_⟩ <;> rintro rfl <;> exact absurd hnot (by decide)

theorem scanFraction_append (hrest : EndsNumber rest) (negative : Bool) (m dropped : Nat)
    (s : List Char) :
    scanFraction negative m dropped (s ++ rest)
      = followedBy rest (scanFraction negative m dropped s) := by
  -- The digits end here, or the first character tells how the number goes on.
  by_cases h : ∀ c ∈ s.head?, c ≠ '.' ∧ c ≠ 'e' ∧ c ≠ 'E'
  · have happend := hrest.head_append h fun c hc => by
      refine ⟨?_, ?_, ?_⟩ <;> rintro rfl <;> exact absurd hc (by decide)
    rw [scanFraction_of_ne h, scanFraction_of_ne happend]
    split
    · rfl
    · split
      · rfl
      · exact (followedBy_map _ _).symm
  · cases s with
    | nil => exact absurd (fun c hc => absurd hc (by rintro ⟨⟩)) h
    | cons c s =>
      have hc : c = '.' ∨ c = 'e' ∨ c = 'E' := by
        by_contra hne
        rw [not_or, not_or] at hne
        exact h fun d hd => Option.some.inj hd ▸ hne
      rcases hc with rfl | rfl | rfl
      · rw [List.cons_append, scanFraction_point, scanFraction_point, spanDigits_append hrest]
        dsimp only
        split
        · rfl
        · exact scanAfterFraction_append hrest negative _ _ _
      · exact scanExponent_append hrest negative m dropped s
      · exact scanExponent_append hrest negative m dropped s

theorem scanUnsigned_append (hrest : EndsNumber rest) (negative : Bool) (s : List Char) :
    scanUnsigned negative (s ++ rest) = followedBy rest (scanUnsigned negative s) := by
  unfold scanUnsigned
  rw [spanDigits_append hrest]
  dsimp only
  split
  · rfl
  · exact scanFraction_append hrest negative 0 0 _
  · rfl
  · exact scanFraction_append hrest negative _ _ _

theorem scanNumber_of_ne {s : List Char} (h : ∀ c ∈ s.head?, c ≠ '-') :
    scanNumber s = scanUnsigned false s := by
  unfold scanNumber
  split
  · exact absurd rfl (h '-' rfl)
  · rfl

/-- **The end of a number**: a text that no number goes on with is not looked at. -/
theorem scanNumber_append (hrest : EndsNumber rest) (s : List Char) :
    scanNumber (s ++ rest) = followedBy rest (scanNumber s) := by
  by_cases h : ∀ c ∈ s.head?, c ≠ '-'
  · have happend := hrest.head_append h fun c hc => by
      rintro rfl
      exact absurd hc (by decide)
    rw [scanNumber_of_ne h, scanNumber_of_ne happend, scanUnsigned_append hrest]
  · cases s with
    | nil => exact absurd (fun c hc => absurd hc (by rintro ⟨⟩)) h
    | cons c s =>
      have hc : c = '-' := by
        by_contra hne
        exact h fun d hd => Option.some.inj hd ▸ hne
      subst hc
      exact scanUnsigned_append hrest true s

/-! ### Integers -/

theorem isDigit_toDigits (n : Nat) : ∀ c ∈ Nat.toDigits 10 n, c.isDigit = true := fun _ hc =>
  Nat.isDigit_of_mem_toDigits (by decide) (by decide) hc

theorem le_ofDigitChars (ds : List Char) (m : Nat) : m ≤ Nat.ofDigitChars 10 ds m := by
  induction ds generalizing m with
  | nil => exact Nat.le_refl m
  | cons c ds ih =>
    rw [Nat.ofDigitChars_cons]
    have hnext := ih (10 * m + (c.toNat - '0'.toNat))
    omega

/-- All digits of a number that fits sixty-four bits are used. -/
theorem extend_of_lt {ds : List Char} {m : Nat} (h : Nat.ofDigitChars 10 ds m < UInt64.size) :
    extend m ds = (Nat.ofDigitChars 10 ds m, ds.length) := by
  induction ds generalizing m with
  | nil => rfl
  | cons c ds ih =>
    rw [Nat.ofDigitChars_cons] at h ⊢
    have hnext := lt_of_le_of_lt (le_ofDigitChars ds _) h
    rw [extend]
    show (if 10 * m + (c.toNat - '0'.toNat) < UInt64.size then _ else _) = _
    rw [if_pos hnext]
    show ((extend _ ds).1, (extend _ ds).2 + 1) = _
    rw [show Numeral.digitValue c = c.toNat - '0'.toNat from rfl, ih h]
    rfl

/-- Only zero is written with a zero in front. -/
theorem toDigits_zero_cons {n : Nat} {ds : List Char} (h : Nat.toDigits 10 n = '0' :: ds) :
    ds = [] ∧ n = 0 := by
  induction n using Nat.strong_induction_on generalizing ds with
  | _ n ih =>
    -- A zero in front is carried up to the quotient by ten, and the quotient is not zero.
    by_cases hlt : n < 10
    · rw [Nat.toDigits_of_lt_base hlt] at h
      obtain ⟨hdigit, rfl⟩ := List.cons.inj h
      have hzero : ∀ k < 10, k.digitChar = '0' → k = 0 := by decide
      exact ⟨rfl, hzero n hlt hdigit⟩
    · rw [Nat.toDigits_of_base_le (by decide) (by omega)] at h
      cases hhead : Nat.toDigits 10 (n / 10) with
      | nil => exact absurd hhead Nat.toDigits_ne_nil
      | cons c cs =>
        rw [hhead, List.cons_append] at h
        obtain ⟨rfl, -⟩ := List.cons.inj h
        obtain ⟨-, hzero⟩ := ih (n / 10) (by omega) hhead
        omega

/-- Digits that may stand before a point: a zero stands there alone. -/
structure IsWhole (ds : List Char) : Prop where
  isDigit : ∀ c ∈ ds, c.isDigit = true
  ne_nil : ds ≠ []
  eq_nil_of_zero : ∀ rest, ds = '0' :: rest → rest = []

theorem isWhole_toDigits (n : Nat) : IsWhole (Nat.toDigits 10 n) :=
  ⟨isDigit_toDigits n, Nat.toDigits_ne_nil, fun _ hzero => (toDigits_zero_cons hzero).1⟩

/-- Digits end where no digit follows. -/
theorem spanDigits_append_of_isDigit {ds : List Char} (hds : ∀ c ∈ ds, c.isDigit = true)
    (hrest : ∀ c ∈ rest.head?, c.isDigit = false) :
    Numeral.spanDigits (ds ++ rest) = (ds, rest) := by
  have hspan : Numeral.spanDigits rest = ([], rest) := by
    cases rest with
    | nil => rfl
    | cons c rest =>
      have hc : ¬ c.isDigit = true := by rw [hrest c rfl]; decide
      unfold Numeral.spanDigits
      rw [List.takeWhile_cons_of_neg hc, List.dropWhile_cons_of_neg hc]
  obtain ⟨htake, hdrop⟩ := Prod.mk.inj hspan
  unfold Numeral.spanDigits
  rw [List.takeWhile_append_of_pos hds, List.dropWhile_append_of_pos hds, htake, hdrop,
    List.append_nil]

/-- The digits before the point are read first. -/
theorem IsWhole.scanUnsigned {ds : List Char} (hds : IsWhole ds)
    (hrest : ∀ c ∈ rest.head?, c.isDigit = false) (negative : Bool) :
    Json.scanUnsigned negative (ds ++ rest)
      = scanFraction negative (extend 0 ds).1 (ds.length - (extend 0 ds).2) rest := by
  have hspan := spanDigits_append_of_isDigit hds.isDigit hrest
  unfold Json.scanUnsigned
  rw [hspan]
  dsimp only
  split
  · exact absurd rfl hds.ne_nil
  · rfl
  · next hne => exact absurd (hds.eq_nil_of_zero _ rfl) hne
  · rfl

theorem scanUnsigned_toDigits (hrest : EndsNumber rest) (negative : Bool) {n : Nat}
    (hn : n < UInt64.size) :
    scanUnsigned negative (Nat.toDigits 10 n ++ rest) = scanFraction negative n 0 rest := by
  have hends : ∀ c ∈ rest.head?, c.isDigit = false := by
    cases rest with
    | nil => rintro _ ⟨⟩
    | cons c r => exact fun d hd => Option.some.inj hd ▸ hrest.not_isDigit
  have hextend : extend 0 (Nat.toDigits 10 n) = (n, (Nat.toDigits 10 n).length) := by
    rw [extend_of_lt (by rwa [Nat.ofDigitChars_ten_toDigits]), Nat.ofDigitChars_ten_toDigits]
  rw [(isWhole_toDigits n).scanUnsigned hends, hextend, Nat.sub_self]

/-- The text of an integer of sixty-four bits reads back. -/
theorem scanNumber_intChars (hrest : EndsNumber rest) {i : Int} (hi : fitsInt64 i = true) :
    scanNumber (intChars i ++ rest) = some (.integer i, rest) := by
  have hbounds := of_decide_eq_true hi
  have hmin : Int64.minValue.toInt = -2 ^ 63 := by decide
  have hmax : Int64.maxValue.toInt = 2 ^ 63 - 1 := by decide
  have hsize : UInt64.size = 2 ^ 64 := rfl
  have habs : i.natAbs < UInt64.size := by omega
  unfold intChars
  by_cases hneg : i < 0
  · rw [if_pos hneg]
    show scanUnsigned true (Nat.toDigits 10 i.natAbs ++ rest) = _
    have hpower : Nat.pow 2 63 = 2 ^ 63 := rfl
    rw [scanUnsigned_toDigits hrest true habs, hrest.scanFraction, if_neg (by decide),
      if_pos ⟨rfl, by omega, by omega⟩]
    congr 3
    omega
  · rw [if_neg hneg]
    have hhead : ∀ c ∈ (Nat.toDigits 10 i.natAbs ++ rest).head?, c ≠ '-' := by
      refine hrest.head_append (fun c hc => ?_) (fun c hc => ?_)
      · have hdigit := isDigit_toDigits _ c (List.mem_of_mem_head? hc)
        rintro rfl
        exact absurd hdigit (by decide)
      · rintro rfl
        exact absurd hc (by decide)
    rw [scanNumber_of_ne hhead, scanUnsigned_toDigits hrest false habs, hrest.scanFraction,
      if_pos ⟨rfl, rfl⟩]
    congr 3
    omega

end Json

end GraphIndex
