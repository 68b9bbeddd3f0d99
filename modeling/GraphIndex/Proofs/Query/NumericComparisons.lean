import GraphIndex.Proofs.Number.Steps
import GraphIndex.Proofs.Query.Language.Decimals
import GraphIndex.Proofs.Query.Presence
import GraphIndex.Proofs.Statement.Classes

/-!
# Comparisons by order on custom fields

A value of a custom field is a text, and a comparison by order is with the number that it denotes.
Four patterns stand before the comparison: together they say that the text is a decimal numeral with
at most one sign in front (`isNumeralText_iff`), and the number that is taken from such a text is
the double that the store reads from its digits (`Language.Decimal.IsWrittenAs.cast_real`).

So a comparison by order, negated or not, depends on the numerals among the values alone:
`Comparison.mem_nodes_iff` is about one comparison and `Selection.mem_nodes_withNumerals_iff` about
trees.
-/

namespace GraphIndex

open Numeral
open GraphIndex.Language (Decimal)

variable {s rest : List Char} {d : Decimal}

/-! ### Numerals -/

namespace Language.Decimal

/-- A text writes a decimal; a plus sign may stand in front of it. -/
def IsWrittenAs (d : Decimal) (s : List Char) : Prop :=
  d.IsProper ∧ (s = d.chars ∨ d.negative = false ∧ s = '+' :: d.unsignedChars)

/-- The double that the store reads from the digits of the decimal. -/
def stored (d : Decimal) : Binary64 := .ofSteps d.negative d.whole d.places 0

theorem isNaN_stored (d : Decimal) : d.stored.isNaN = false := Binary64.isNaN_ofSteps _ _ _ _

/-- Digits with at most one point among them, and at least one digit. -/
def IsMagnitude (s : List Char) : Prop :=
  (∀ c ∈ s, c.isDigit = true ∨ c = '.') ∧ s.count '.' ≤ 1 ∧ ∃ c ∈ s, c.isDigit = true

theorem count_point_of_digits {ds : List Char} (hds : ∀ c ∈ ds, c.isDigit = true) :
    ds.count '.' = 0 :=
  List.count_eq_zero.mpr fun hmem => absurd (hds _ hmem) (by decide)

theorem isMagnitude_unsignedChars (hd : d.IsProper) : IsMagnitude d.unsignedChars := by
  obtain ⟨negative, whole, fraction⟩ := d
  obtain ⟨hdigits, hne⟩ := hd
  obtain ⟨hwhole, hplaces⟩ := List.forall_mem_append.mp hdigits
  obtain ⟨c, hc⟩ := List.exists_mem_of_ne_nil _ hne
  unfold IsMagnitude
  cases fraction with
  | none =>
    have hchars : unsignedChars ⟨negative, whole, none⟩ = whole := List.append_nil whole
    rw [hchars, count_point_of_digits hwhole]
    have hmem : c ∈ whole := (List.mem_append.mp hc).resolve_right List.not_mem_nil
    exact ⟨fun c hc => Or.inl (hwhole c hc), Nat.zero_le 1, c, hmem, hwhole c hmem⟩
  | some places =>
    have hchars : unsignedChars ⟨negative, whole, some places⟩ = whole ++ '.' :: places := rfl
    have hone : (whole ++ '.' :: places).count '.' = 1 := by
      have hplaces : ∀ c ∈ places, c.isDigit = true := hplaces
      rw [List.count_append, List.count_cons_self, count_point_of_digits hwhole,
        count_point_of_digits hplaces]
    rw [hchars, hone]
    refine ⟨?_, le_rfl, c, ?_, hdigits c hc⟩
    · exact List.forall_mem_append.mpr ⟨fun c hc => Or.inl (hwhole c hc),
        List.forall_mem_cons.mpr ⟨Or.inr rfl, fun c hc => Or.inl (hplaces c hc)⟩⟩
    · exact List.mem_append.mpr ((List.mem_append.mp hc).imp_right (List.mem_cons_of_mem _))

theorem exists_of_isMagnitude (negative : Bool) (h : IsMagnitude s) :
    ∃ d : Decimal, d.IsProper ∧ d.negative = negative ∧ s = d.unsignedChars := by
  obtain ⟨hall, hcount, c, hc, hdigit⟩ := h
  by_cases hmem : '.' ∈ s
  · obtain ⟨whole, places, rfl, hwhole⟩ := List.eq_append_cons_of_mem hmem
    rw [List.count_append, List.count_cons_self, List.count_eq_zero_of_not_mem hwhole] at hcount
    have hplaces : '.' ∉ places := List.count_eq_zero.mp (by omega)
    have hdigits : ∀ c ∈ whole ++ places, c.isDigit = true := by
      intro c hc
      have hne : c ≠ '.' := by
        rintro rfl
        exact (List.mem_append.mp hc).elim hwhole hplaces
      refine (hall c ?_).resolve_right hne
      exact List.mem_append.mpr ((List.mem_append.mp hc).imp_right (List.mem_cons_of_mem _))
    -- A point alone has no digit.
    have hne : whole ++ places ≠ [] := by
      intro hnil
      obtain ⟨rfl, rfl⟩ := List.append_eq_nil_iff.mp hnil
      obtain rfl := List.mem_singleton.mp hc
      exact absurd hdigit (by decide)
    exact ⟨⟨negative, whole, some places⟩, ⟨hdigits, hne⟩, rfl, rfl⟩
  · have hdigits : ∀ c ∈ s ++ [], c.isDigit = true := by
      rw [List.append_nil]
      refine fun c hc => (hall c hc).resolve_right ?_
      rintro rfl
      exact hmem hc
    have hne : s ++ [] ≠ [] := by
      rw [List.append_nil]
      exact List.ne_nil_of_mem hc
    exact ⟨⟨negative, s, none⟩, ⟨hdigits, hne⟩, rfl, (List.append_nil s).symm⟩

/-- These are the characters of a decimal without its sign. -/
theorem exists_unsignedChars_iff (negative : Bool) :
    (∃ d : Decimal, d.IsProper ∧ d.negative = negative ∧ s = d.unsignedChars) ↔ IsMagnitude s := by
  constructor
  · rintro ⟨d, hd, -, rfl⟩
    exact isMagnitude_unsignedChars hd
  · exact exists_of_isMagnitude negative

end Language.Decimal

/-- Signs are neither digits nor points. -/
theorem not_isDigit_or_point {c : Char} (hc : c = '+' ∨ c = '-') :
    ¬ (c.isDigit = true ∨ c = '.') := by
  rcases hc with rfl | rfl <;> decide

theorem contains_digits (c : Char) : (ClassItem.range '0' '9').contains c = c.isDigit := by
  rw [Bool.eq_iff_iff, ClassItem.contains, decide_eq_true_iff]
  simp only [Char.isDigit, Bool.and_eq_true, decide_eq_true_iff]
  rfl

theorem contains_char (c d : Char) : (ClassItem.char d).contains c = true ↔ c = d :=
  decide_eq_true_iff

/-- What the four tests for a numeral say of a text. -/
theorem isNumeralText_iff_forall : isNumeralText s = true ↔
    (∃ c ∈ s, c.isDigit = true) ∧
    (∀ c ∈ s, c.isDigit = true ∨ c = '.' ∨ c = '+' ∨ c = '-') ∧
    (∀ c ∈ s.tail, c ≠ '+' ∧ c ≠ '-') ∧ s.count '.' ≤ 1 := by
  have hdigit : someDigit.glob s = true ↔ ∃ c ∈ s, c.isDigit = true := by
    rw [someDigit, Pattern.glob_inside_iff (by simp)]
    simp only [Pattern.fits, List.any_cons, List.any_nil, Bool.or_false, contains_digits]
  have hother : someOther.glob s = true ↔
      ∃ c ∈ s, ¬ (c.isDigit = true ∨ c = '.' ∨ c = '+' ∨ c = '-') := by
    rw [someOther, Pattern.glob_inside_iff (by simp)]
    simp only [Pattern.fits, List.any_cons, List.any_nil, Bool.or_false, contains_digits,
      Bool.not_eq_true', ← Bool.not_eq_true, Bool.or_eq_true, contains_char]
  have hsign : laterSign.glob s = true ↔ ∃ c ∈ s.tail, c = '+' ∨ c = '-' := by
    rw [laterSign, Pattern.glob_later_iff (by simp)]
    simp only [Pattern.fits, List.any_cons, List.any_nil, Bool.or_false, Bool.or_eq_true,
      contains_char]
  -- Four patterns: the first has to match, the others must not.
  have hpoints : twoPoints.glob s = true ↔ 2 ≤ s.count '.' := Pattern.glob_twice_iff
  unfold isNumeralText
  rw [Bool.and_eq_true, Bool.and_eq_true, Bool.and_eq_true, Bool.not_eq_true', Bool.not_eq_true',
    Bool.not_eq_true', ← Bool.not_eq_true, ← Bool.not_eq_true, ← Bool.not_eq_true, hdigit, hother,
    hsign, hpoints, and_assoc, and_assoc]
  refine and_congr_right' (and_congr ?_ (and_congr ?_ (by rw [not_le, Nat.lt_succ_iff])))
  · simp only [not_exists, not_and, not_not]
  · simp only [not_exists, not_and, not_or]

/-- Behind a sign stand digits and at most one point. -/
theorem isNumeralText_sign {c : Char} (hc : c = '+' ∨ c = '-') :
    isNumeralText (c :: s) = true ↔ Language.Decimal.IsMagnitude s := by
  obtain ⟨hdigit, hpoint⟩ := not_or.mp (not_isDigit_or_point hc)
  rw [isNumeralText_iff_forall, List.tail_cons, List.count_cons_of_ne hpoint]
  constructor
  · rintro ⟨⟨d, hd, hdd⟩, hall, hsign, hcount⟩
    refine ⟨fun d hd => ?_, hcount, d, ?_, hdd⟩
    · obtain ⟨hplus, hminus⟩ := hsign d hd
      rcases hall d (List.mem_cons_of_mem c hd) with h | h | h | h
      · exact Or.inl h
      · exact Or.inr h
      · exact absurd h hplus
      · exact absurd h hminus
    · refine (List.mem_cons.mp hd).resolve_left ?_
      rintro rfl
      exact hdigit hdd
  · rintro ⟨hall, hcount, d, hd, hdd⟩
    refine ⟨⟨d, List.mem_cons_of_mem c hd, hdd⟩, ?_, fun d hd => ?_, hcount⟩
    · refine List.forall_mem_cons.mpr ⟨Or.inr (Or.inr hc), fun d hd => ?_⟩
      exact (hall d hd).imp_right Or.inl
    · exact not_or.mp fun h => not_isDigit_or_point h (hall d hd)

/-- A text without a sign in front is made of digits and at most one point. -/
theorem isNumeralText_of_no_sign (hfirst : ∀ c ∈ s.head?, ¬ (c = '+' ∨ c = '-')) :
    isNumeralText s = true ↔ Language.Decimal.IsMagnitude s := by
  rw [isNumeralText_iff_forall]
  constructor
  · rintro ⟨hdigit, hall, hsign, hcount⟩
    refine ⟨fun c hc => ?_, hcount, hdigit⟩
    have hnot : ¬ (c = '+' ∨ c = '-') := by
      cases s with
      | nil => exact absurd hc List.not_mem_nil
      | cons d s =>
        rcases List.mem_cons.mp hc with rfl | hc
        · exact hfirst c rfl
        · exact not_or.mpr (hsign c hc)
    exact (or_assoc.mpr (hall c hc)).resolve_right hnot
  · rintro ⟨hall, hcount, hdigit⟩
    refine ⟨hdigit, fun c hc => (hall c hc).imp_right Or.inl, fun c hc => ?_, hcount⟩
    exact not_or.mp fun h => not_isDigit_or_point h (hall c (List.mem_of_mem_tail hc))

/-- **The tests for a numeral** together say that the text writes a decimal. -/
theorem isNumeralText_iff : isNumeralText s = true ↔ ∃ d : Decimal, d.IsWrittenAs s := by
  constructor
  · intro h
    -- A plus sign and no sign at all are two ways of writing the same number.
    by_cases hsign : ∃ c t, s = c :: t ∧ (c = '+' ∨ c = '-')
    · obtain ⟨c, t, rfl, hc⟩ := hsign
      have ht := (isNumeralText_sign hc).mp h
      rcases hc with rfl | rfl
      · obtain ⟨d, hd, hneg, rfl⟩ := (Language.Decimal.exists_unsignedChars_iff false).mpr ht
        exact ⟨d, hd, Or.inr ⟨hneg, rfl⟩⟩
      · obtain ⟨d, hd, hneg, rfl⟩ := (Language.Decimal.exists_unsignedChars_iff true).mpr ht
        exact ⟨d, hd, Or.inl (by rw [Language.Decimal.chars, hneg]; rfl)⟩
    · have hfirst : ∀ c ∈ s.head?, ¬ (c = '+' ∨ c = '-') := by
        intro c hc hsigned
        obtain ⟨t, rfl⟩ := List.head?_eq_some_iff.mp hc
        exact hsign ⟨c, t, rfl, hsigned⟩
      have hs := (isNumeralText_of_no_sign hfirst).mp h
      obtain ⟨d, hd, hneg, rfl⟩ := (Language.Decimal.exists_unsignedChars_iff false).mpr hs
      exact ⟨d, hd, Or.inl (by rw [Language.Decimal.chars, hneg]; rfl)⟩
  · rintro ⟨d, hd, hs⟩
    have hunsigned := (Language.Decimal.exists_unsignedChars_iff d.negative).mp ⟨d, hd, rfl, rfl⟩
    rcases hs with rfl | ⟨-, rfl⟩
    · unfold Language.Decimal.chars
      split
      · exact (isNumeralText_sign (Or.inr rfl)).mpr hunsigned
      · refine (isNumeralText_of_no_sign fun c hc hsign => ?_).mpr hunsigned
        exact not_isDigit_or_point hsign (hunsigned.1 c (List.mem_of_mem_head? hc))
    · exact (isNumeralText_sign (Or.inl rfl)).mpr hunsigned

/-! ### Numbers of numerals -/

/-- A text is over, or cut off by a NUL. -/
def IsCut (rest : List Char) : Prop := rest = [] ∨ ∃ r, rest = '\x00' :: r

theorem IsCut.isDigit_head? (h : IsCut rest) : ∀ c ∈ rest.head?, c.isDigit = false := by
  rcases h with rfl | ⟨r, rfl⟩
  · exact fun c hc => absurd hc (by rintro ⟨⟩)
  · exact fun c hc => Option.some.inj hc ▸ rfl

theorem IsCut.exponent_eq_none (h : IsCut rest) : NumericText.exponent rest = none := by
  rcases h with rfl | ⟨r, rfl⟩ <;> rfl

theorem exists_isCut_untilNul (s : List Char) :
    ∃ rest, IsCut rest ∧ s = Datum.untilNul s ++ rest := by
  refine ⟨s.dropWhile fun c => c.toNat != 0, ?_, List.takeWhile_append_dropWhile.symm⟩
  cases hrest : s.dropWhile fun c => c.toNat != 0 with
  | nil => exact Or.inl rfl
  | cons c r =>
    have hc : (c.toNat != 0) = false := by
      have := List.head_dropWhile_not (fun c : Char => c.toNat != 0) (l := s) (by rw [hrest]; simp)
      simpa [hrest] using this
    obtain rfl : c = '\x00' := Char.toNat_inj.mp (by simpa using hc)
    exact Or.inr ⟨r, rfl⟩

/-- What follows the sign of a numeral is read to its end. -/
theorem value_leading_of_spanSign (hd : d.IsProper) (hspace : s.dropWhile NumericText.isSpace = s)
    (hsign : spanSign s = (d.negative, d.unsignedChars ++ rest)) (hrest : IsCut rest) :
    (NumericText.leading s).map (·.value) = some d.stored := by
  obtain ⟨negative, whole, fraction⟩ := d
  obtain ⟨hdigits, hne⟩ := hd
  obtain ⟨hwhole, hplaces⟩ := List.forall_mem_append.mp hdigits
  have hsome : ∀ fraction : List Char, whole ++ fraction ≠ [] →
      ¬ (whole.isEmpty && fraction.isEmpty) = true := by
    intro fraction hne
    rw [Bool.and_eq_true, List.isEmpty_iff, List.isEmpty_iff]
    rintro ⟨rfl, rfl⟩
    exact hne rfl
  have hspan : ∀ {ds after : List Char}, (∀ c ∈ ds, c.isDigit = true) →
      (∀ c ∈ after.head?, c.isDigit = false) → spanDigits (ds ++ after) = (ds, after) := by
    intro ds after hds hafter
    obtain ⟨htake, hdrop⟩ := Language.span_append hds hafter
    exact Prod.ext htake hdrop
  unfold NumericText.leading
  cases fraction with
  | none =>
    have hs : spanSign s = (negative, whole ++ rest) := by
      rw [hsign, Language.Decimal.unsignedChars, Option.elim, List.append_nil]
    simp only [hspace, hs, hspan hwhole hrest.isDigit_head?]
    -- Neither the end of a text nor a NUL is a point.
    rcases hrest with rfl | ⟨r, rfl⟩ <;>
    · show Option.map _ (if whole.isEmpty && ([] : List Char).isEmpty then none else some _) = _
      rw [if_neg (hsome [] hne)]
      rfl
  | some ds =>
    have hs : spanSign s = (negative, whole ++ '.' :: (ds ++ rest)) := by
      rw [hsign, Language.Decimal.unsignedChars, Option.elim, List.append_assoc, List.cons_append]
    have hpoint : ∀ c ∈ ('.' :: (ds ++ rest)).head?, c.isDigit = false :=
      fun c hc => Option.some.inj hc ▸ rfl
    have hds : ∀ c ∈ ds, c.isDigit = true := hplaces
    simp only [hspace, hs, hspan hwhole hpoint, hspan hds hrest.isDigit_head?,
      hrest.exponent_eq_none]
    rw [if_neg (hsome ds hne)]
    rfl

/-- A numeral begins with a sign, a digit or a point. -/
theorem isNumeralText_head? (h : isNumeralText s = true) :
    ∃ c t, s = c :: t ∧ (c.isDigit = true ∨ c = '.' ∨ c = '+' ∨ c = '-') := by
  obtain ⟨⟨c, hc, -⟩, hall, -⟩ := isNumeralText_iff_forall.mp h
  obtain ⟨d, t, rfl⟩ := List.exists_cons_of_ne_nil (List.ne_nil_of_mem hc)
  exact ⟨d, t, rfl, hall d List.mem_cons_self⟩

theorem Language.Decimal.IsWrittenAs.spanSign_append (hd : d.IsWrittenAs s) (rest : List Char) :
    spanSign (s ++ rest) = (d.negative, d.unsignedChars ++ rest) := by
  obtain ⟨hproper, rfl | ⟨hneg, rfl⟩⟩ := hd
  · unfold Language.Decimal.chars
    cases hneg : d.negative with
    | true => rfl
    | false =>
      obtain ⟨c, t, ht, -⟩ := isNumeralText_head? (isNumeralText_iff.mpr ⟨d, hproper, Or.inl rfl⟩)
      rw [Language.Decimal.chars, hneg, if_neg Bool.false_ne_true] at ht
      have hc := hproper.inDouble_unsignedChars c (ht ▸ List.mem_cons_self)
      rw [if_neg Bool.false_ne_true, ht]
      unfold spanSign
      split
      · next heq => exact absurd (List.cons.inj heq).1 hc.1
      · next heq => exact absurd ((List.cons.inj heq).1 ▸ hc.2) (by decide)
      · rfl
  · rw [hneg]
    rfl

/-- **The number of a numeral** is the double that the store reads from its digits. -/
theorem Language.Decimal.IsWrittenAs.cast_real {s : String}
    (hd : d.IsWrittenAs (Datum.untilNul s.toList)) :
    (Datum.text s).cast .real = .real d.stored := by
  obtain ⟨rest, hcut, hs⟩ := exists_isCut_untilNul s.toList
  obtain ⟨c, t, ht, hc⟩ := isNumeralText_head? (isNumeralText_iff.mpr ⟨d, hd⟩)
  -- The store skips blanks in front of a number, and here there are none.
  have hsolid : NumericText.isSpace c = false := by
    rcases hc with h | rfl | rfl | rfl
    · have hle : '0'.toNat ≤ c.toNat := by
        rw [Char.isDigit, Bool.and_eq_true, decide_eq_true_iff] at h
        exact h.1
      simp only [Char.reduceToNat] at hle
      rw [NumericText.isSpace, decide_eq_false_iff_not]
      rintro (rfl | ⟨-, hle'⟩)
      · exact absurd h (by decide)
      · omega
    all_goals rfl
  have hspace : s.toList.dropWhile NumericText.isSpace = s.toList := by
    rw [hs, ht, List.cons_append, List.dropWhile_cons_of_neg (Bool.not_eq_true _ ▸ hsolid)]
  have hvalue : (NumericText.leading s.toList).map (·.value) = some d.stored :=
    value_leading_of_spanSign hd.1 hspace (by rw [hs]; exact hd.spanSign_append rest) hcut
  obtain ⟨n, hn, hvalue⟩ := Option.map_eq_some_iff.mp hvalue
  show Datum.ofReal ((NumericText.leading s.toList).elim (.zero false) (·.value)) = _
  rw [hn, Option.elim_some, hvalue, Datum.ofReal, d.isNaN_stored]
  rfl

/-! ### Comparisons by order -/

/-- A text stands in an order to a bound number: it is a numeral, up to its first NUL, and the
double that is read from it stands in this order. To null nothing does. -/
def Comparison.Admits (c : Comparison) (number : Datum) (s : String) : Prop :=
  ∃ d : Decimal, d.IsWrittenAs (Datum.untilNul s.toList) ∧ number.isNull = false
    ∧ c.holds ((Datum.real d.stored).order number) = true

variable {c : Comparison} {v : Operand} {number : Datum}

/-- A number is bound as a number, or as null. -/
theorem Operand.preferNumber_asBound (hv : v.number? = some number) :
    number.asBound.preferNumber = number.asBound := by
  have hreal : ∀ x, (Datum.real x).asBound.preferNumber = (Datum.real x).asBound := by
    intro x
    show (Datum.ofReal x).preferNumber = Datum.ofReal x
    unfold Datum.ofReal
    split <;> rfl
  cases v with
  | bool b => exact absurd hv (by rintro ⟨⟩)
  | integer i =>
    obtain rfl := Option.some.inj hv
    rfl
  | real x =>
    obtain rfl := Option.some.inj hv
    exact hreal x
  | text t =>
    obtain ⟨x, -, rfl⟩ := Option.map_eq_some_iff.mp hv
    exact hreal x

/-- A value of a custom field meets a comparison by order just if it stands in this order. -/
theorem Operator.valueHolds_ordering_iff (hc : c.isOrdering = true) (hv : v.number? = some number)
    (s : String) :
    (Operator.compare c).valueHolds v s = true ↔ c.Admits number.asBound s := by
  show (if c.isOrdering then _ else _) = true ↔ _
  rw [if_pos hc, Bool.and_eq_true, isNumeralText_iff]
  -- The guard has read a decimal, and the comparison is with the double of its digits.
  have hcompare : ∀ {d : Decimal}, d.IsWrittenAs (Datum.untilNul s.toList) →
      (c.numberHolds v s = true ↔ number.asBound.isNull = false
        ∧ c.holds ((Datum.real d.stored).order number.asBound) = true) := by
    intro d hd
    unfold Comparison.numberHolds
    rw [hv, Option.any_some, hd.cast_real]
    unfold Datum.compare
    rw [show (Datum.real d.stored).isNull = false from rfl, Bool.false_or]
    cases hnull : number.asBound.isNull with
    | true => simp
    | false =>
      have hprefer : number.asBound.prefer (some .real) none = number.asBound :=
        Operand.preferNumber_asBound hv
      rw [if_neg Bool.false_ne_true, Option.any_some, hprefer]
      exact (and_iff_right rfl).symm
  exact ⟨fun ⟨⟨d, hd⟩, h⟩ => ⟨d, hd, (hcompare hd).mp h⟩,
    fun ⟨d, hd, h⟩ => ⟨⟨d, hd⟩, (hcompare hd).mpr h⟩⟩

variable {store : Store} {r : NodeRow} {field name find : String} {σ : Scope} {e : Expr}

/-- Some value of a field of a node stands in an order to a number. -/
def Store.HasAdmitted (store : Store) (r : NodeRow) (name : String) (c : Comparison)
    (number : Datum) : Prop :=
  ∃ f ∈ store.fields, (r.id = some f.node ∧ f.field = name) ∧
    ∃ s, f.value = some s ∧ c.Admits number s

theorem any_values_iff (hc : c.isOrdering = true) (hv : v.number? = some number) :
    ((store.view r).values name).any (fun s => (Operator.compare c).valueHolds v s) = true ↔
      store.HasAdmitted r name c number.asBound := by
  rw [List.any_eq_true]
  simp only [Operator.valueHolds_ordering_iff hc hv]
  constructor
  · rintro ⟨s, hs, hadmits⟩
    obtain ⟨f, hf, hof, hs⟩ := Store.mem_valuesOf.mp hs
    exact ⟨f, hf, hof, s, hs, hadmits⟩
  · rintro ⟨f, hf, hof, s, hs, hadmits⟩
    exact ⟨s, Store.mem_valuesOf.mpr ⟨f, hf, hof, hs⟩, hadmits⟩

/-- A comparison by order is true or false of every node, negated or not. -/
theorem splitTruth_ordering_iff (hroute : Route.ofField field = .ok (.custom name))
    (hc : c.isOrdering = true) (hv : v.number? = some number) (negated : Bool) :
    (Entry.clause ⟨field, .compare c, v, negated⟩).splitTruth (store.view r) (store.nestedView r)
        = some true ↔
      (store.HasAdmitted r name c number.asBound ↔ negated = false) := by
  have htruth : ∀ negated : Bool,
      Clause.positiveTruth (store.view r) ⟨field, .compare c, v, negated⟩
        = some (((store.view r).values name).any fun s => (Operator.compare c).valueHolds v s) :=
    fun negated => Clause.positiveTruth_custom (c := ⟨field, .compare c, v, negated⟩) hroute rfl
  have hnested : Clause.positiveTruth (store.nestedView r) ⟨field, .compare c, v, negated⟩
      = Clause.positiveTruth (store.view r) ⟨field, .compare c, v, negated⟩ :=
    Clause.positiveTruth_nestedView fun h => by
      rw [hroute] at h
      exact absurd (Except.ok.inj h) (by rintro ⟨⟩)
  rw [← any_values_iff hc hv, Entry.splitTruth, Clause.truth]
  cases negated with
  | true =>
    show (Clause.positiveTruth (store.nestedView r) _).map _ = _ ↔ _
    rw [hnested, htruth]
    simp
  | false =>
    show Clause.positiveTruth (store.view r) _ = _ ↔ _
    rw [htruth]
    simp

theorem compiles_ordering (hroute : Route.ofField field = .ok (.custom name))
    (hc : c.isOrdering = true) (hv : v.number? = some number) (negated : Bool) :
    (Entry.clause ⟨field, .compare c, v, negated⟩).Compiles := by
  have hbecomes : Clause.Becomes Filter.defaultStem ⟨field, .compare c, v, false⟩ false 0 _ _ :=
    .field name _ hroute rfl (fieldCondition_of_number hc hv)
  obtain ⟨f, k, hf⟩ : ∃ f k,
      Yields ((Entry.clause ⟨field, .compare c, v, false⟩).filter Filter.defaultStem false) 0 f k :=
    ⟨_, _, yields_bind.mpr ⟨_, _, hbecomes.yields, yields_pure.mpr ⟨rfl, rfl⟩⟩⟩
  have hyields := Entry.exists_yields _ hf false 0
  cases negated with
  | true => exact ⟨0, hyields.2⟩
  | false => exact ⟨0, hyields.1⟩

/-! ### Texts that are no numerals -/

/-- Whether a value of a field is kept where those of one field are to be numerals. -/
def keepsValue (name field s : String) : Bool :=
  field != name || isNumeralText (Datum.untilNul s.toList)

/-- What is left of a view if a field has numerals only. -/
def NodeView.withNumerals (view : NodeView) (name : String) : NodeView :=
  { view with values := fun field => (view.values field).filter (keepsValue name field) }

/-- The store without those rows of a field whose value is null or no numeral. -/
def Store.withNumerals (store : Store) (name : String) : Store :=
  { store with fields := store.fields.filter fun f =>
      f.field != name || f.value.any (keepsValue name f.field) }

theorem Store.valuesOf_withNumerals (id : Option String) :
    (store.withNumerals name).valuesOf id field
      = (store.valuesOf id field).filter (keepsValue name field) := by
  unfold valuesOf withNumerals
  rw [List.filter_filter, List.filterMap_filter, List.filter_filterMap, List.filterMap_filter]
  refine List.filterMap_congr fun f _ => ?_
  by_cases hof : (id == some f.node && f.field == field) = true
  · have hfield : f.field = field := by
      rw [Bool.and_eq_true, beq_iff_eq, beq_iff_eq] at hof
      exact hof.2
    rw [hof, Bool.true_and, if_pos rfl, hfield]
    cases hvalue : f.value with
    | none => simp
    | some s =>
      unfold keepsValue
      cases hne : field != name <;> simp [Option.filter]
  · rw [Bool.not_eq_true] at hof
    rw [hof]
    simp

theorem Store.view_withNumerals :
    (store.withNumerals name).view r = (store.view r).withNumerals name := by
  have hvalues : (store.withNumerals name).valuesOf r.id
      = fun field => (store.valuesOf r.id field).filter (keepsValue name field) :=
    funext fun field => Store.valuesOf_withNumerals r.id
  unfold view
  rw [hvalues]
  rfl

theorem Store.nestedView_withNumerals :
    (store.withNumerals name).nestedView r = (store.nestedView r).withNumerals name := by
  unfold nestedView
  rw [Store.view_withNumerals]
  rfl

/-- A clause on a field compares by order. -/
def Clause.OrdersOn (name : String) (c : Clause) : Prop :=
  Route.ofField c.field = .ok (.custom name) → c.effectiveOperator.isOrdering = true

/-- Comparisons by order see the numerals only. -/
theorem Clause.positiveTruth_withNumerals {c : Clause} (hc : c.OrdersOn name) (view : NodeView) :
    c.positiveTruth (view.withNumerals name) = c.positiveTruth view := by
  cases hroute : Route.ofField c.field with
  | error fault => simp only [positiveTruth, hroute]
  | ok route =>
    cases route with
    | column k => rw [positiveTruth_column hroute, positiveTruth_column hroute]; rfl
    | parentName => rw [positiveTruth_parentName hroute, positiveTruth_parentName hroute]; rfl
    | parentTags => simp only [positiveTruth, hroute]; rfl
    | custom field =>
      by_cases hfield : field = name
      · subst hfield
        have hordering := hc hroute
        obtain ⟨k, hk⟩ : ∃ k, c.effectiveOperator = .compare k := by
          cases hop : c.effectiveOperator with
          | compare k => exact ⟨k, rfl⟩
          | _ =>
            rw [hop] at hordering
            exact absurd hordering Bool.false_ne_true
        have hop : c.effectiveOperator.isExistenceTest = false := by rw [hk]; rfl
        have hk' : k.isOrdering = true := by
          rw [hk] at hordering
          exact hordering
        rw [positiveTruth_custom hroute hop, positiveTruth_custom hroute hop, hk]
        congr 1
        show ((view.values field).filter (keepsValue field field)).any _ = _
        rw [List.any_filter]
        congr 1
        funext s
        -- What is left out meets no comparison by order.
        show (keepsValue field field s && if k.isOrdering then _ else _)
          = if k.isOrdering then _ else _
        rw [if_pos hk', keepsValue, bne_self_eq_false, Bool.false_or, ← Bool.and_assoc,
          Bool.and_self]
      · have hsame : (view.withNumerals name).values field = view.values field := by
          show (view.values field).filter (keepsValue name field) = _
          refine List.filter_eq_self.mpr fun s _ => ?_
          rw [keepsValue, bne_iff_ne.mpr hfield, Bool.true_or]
        unfold positiveTruth
        rw [hroute]
        dsimp only
        rw [hsame]

/-- So do trees in which the field is only compared by order. -/
theorem Entry.splitTruth_withNumerals (view nested : NodeView) (e : Entry) :
    (∀ c ∈ e.clauses, c.OrdersOn name) →
      e.splitTruth (view.withNumerals name) (nested.withNumerals name)
        = e.splitTruth view nested := by
  induction e using Entry.induction generalizing view with
  | clause c =>
    intro hc
    have hc := hc c (List.mem_singleton_self c)
    rw [splitTruth, splitTruth, Clause.truth, Clause.truth]
    cases c.negated with
    | true => exact congrArg (negateIf true) (Clause.positiveTruth_withNumerals hc nested)
    | false => exact congrArg (negateIf false) (Clause.positiveTruth_withNumerals hc view)
  | group kind members negated ih =>
    intro hc
    have hmembers : ∀ view : NodeView, splitTruths (view.withNumerals name)
        (nested.withNumerals name) members = splitTruths view nested members := by
      intro view
      rw [splitTruths_eq_flatMap, splitTruths_eq_flatMap]
      refine List.flatMap_congr fun e he => ?_
      rw [ih e he view fun c hmem => hc c (mem_allClauses.mpr ⟨e, he, hmem⟩)]
    rw [splitTruth, splitTruth]
    cases negated with
    | true =>
      rw [if_pos rfl, if_pos rfl, ← splitTruths_self, ← splitTruths_self, hmembers nested]
    | false => rw [if_neg Bool.false_ne_true, if_neg Bool.false_ne_true, hmembers view]

/-- Where a field is only compared by order, its other values select no node and hide none. -/
theorem Selection.mem_nodes_withNumerals_iff (hids : store.UniqueIds) {es : List Entry}
    (hes : ∀ e ∈ es, ∀ c ∈ e.clauses, c.OrdersOn name) {s : Selection}
    (h : Selection.of find es = .ok s) (r : NodeRow) :
    r ∈ s.nodes (store.withNumerals name) ↔ r ∈ s.nodes store := by
  have hids' : (store.withNumerals name).UniqueIds := hids
  have htruths : Entry.splitTruths ((store.view r).withNumerals name)
      ((store.nestedView r).withNumerals name) es
        = Entry.splitTruths (store.view r) (store.nestedView r) es := by
    rw [Entry.splitTruths_eq_flatMap, Entry.splitTruths_eq_flatMap]
    refine List.flatMap_congr fun e he => ?_
    rw [Entry.splitTruth_withNumerals _ _ e (hes e he)]
  rw [Selection.mem_nodes_iff hids' h, Selection.mem_nodes_iff hids h, Store.view_withNumerals,
    Store.nestedView_withNumerals, htruths]
  rfl

/-! ### Nodes that are selected -/

/-- The patterns of the tests for a numeral are read back from their written form. -/
theorem ofGlob?_of_mem_numeralConditions {fits : Bool} {d : Expr} {p : Pattern}
    (h : Condition.glob fits d p ∈ numeralConditions e) : Pattern.ofGlob? p.globText = some p := by
  have hplain : ∀ p ∈ [someDigit, someOther, laterSign, twoPoints],
      ∀ item ∈ p, Pattern.isPlain item = true := by decide
  have hmem : p ∈ [someDigit, someOther, laterSign, twoPoints] := by
    simp only [numeralConditions, List.mem_cons, List.not_mem_nil, or_false,
      Condition.glob.injEq] at h ⊢
    tauto
  exact Pattern.ofGlob?_globText (hplain p hmem)

theorem untilNul_eq_self (h : '\x00' ∉ s) : Datum.untilNul s = s := by
  refine List.takeWhile_eq_self_iff.mpr fun c hc => ?_
  rw [bne_iff_ne]
  intro hzero
  obtain rfl : c = '\x00' := Char.toNat_inj.mp hzero
  exact h hc

/-- The tests hold of a text just if it is a numeral. -/
theorem truth_numeralConditions_iff {s : String} (hs : e.value σ = .text s)
    (hnul : '\x00' ∉ s.toList) :
    (∀ t ∈ numeralConditions e, t.truth store σ = some true) ↔
      ∃ d : Decimal, d.IsWrittenAs s.toList := by
  have hglob : ∀ (fits : Bool) (p : Pattern),
      (Condition.glob fits e p).truth store σ = some (p.glob s.toList == fits) := by
    intro fits p
    show (e.value σ).chars?.map _ = _
    rw [hs]
    show some (p.glob (Datum.untilNul s.toList) == fits) = _
    rw [untilNul_eq_self hnul]
  rw [← isNumeralText_iff]
  unfold numeralConditions isNumeralText
  simp only [List.forall_mem_cons, hglob, List.not_mem_nil, false_implies, implies_true, and_true,
    Option.some.injEq, beq_iff_eq, Bool.and_eq_true, Bool.not_eq_true', and_assoc]

namespace Comparison

/-- A comparison by order, negated or not, selects the nodes of which it is true. -/
theorem mem_nodes_iff (hids : store.UniqueIds) (hroute : Route.ofField field = .ok (.custom name))
    (hc : c.isOrdering = true) (hv : v.number? = some number) {negated : Bool} {s : Selection}
    (h : Selection.of find [.clause ⟨field, .compare c, v, negated⟩] = .ok s) :
    r ∈ s.nodes store ↔ store.IsOf find r ∧
      (store.HasAdmitted r name c number.asBound ↔ negated = false) := by
  have hclause : (Entry.clause ⟨field, .compare c, v, negated⟩).hasClause = true := rfl
  rw [Selection.mem_nodes_iff hids h, Entry.splitTruths, if_pos hclause, Entry.splitTruths,
    List.forall_mem_singleton, splitTruth_ordering_iff hroute hc hv, Store.IsOf, and_assoc]

/-- A node with a value of every kind, and one without a numeral among its values. -/
def scoreStore : Store where
  nodes := [⟨"n1", "First", none, none, .integer 1, .null, .null⟩,
    ⟨"n2", "Second", none, none, .integer 2, .null, .null⟩]
  tags := []
  fields := [⟨"n1", "score", "high", .integer 0⟩, ⟨"n1", "score", "+7.5", .integer 1⟩,
    ⟨"n2", "score", "9e9", .integer 0⟩, ⟨"n2", "score", none, .integer 1⟩]

end Comparison

end GraphIndex
