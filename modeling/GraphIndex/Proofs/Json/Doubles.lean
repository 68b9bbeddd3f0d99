import GraphIndex.Proofs.Json.Numbers
import GraphIndex.Proofs.Number.Numerals
import GraphIndex.Proofs.Number.Scaling

/-!
# Doubles in JSON texts

The text of a finite double is read as a double (`Json.exists_scanNumber_scientific`), though
perhaps not as the same one: the digits and the power of ten of the text are rounded, and so is
their product. Nothing is too large for the reader; the two largest doubles are both read as the
largest.
-/

namespace GraphIndex

namespace Json

variable {negative : Bool} {m : Nat} {e : Int}

/-! ### Digits and exponents -/

theorem exists_scaleByPower_of_neg (fuel : Nat) (x : Binary64) (he : e < 0) :
    ∃ y, scaleByPower fuel x e = some y := by
  induction fuel generalizing x e with
  | zero => exact ⟨x, rfl⟩
  | succ fuel ih =>
    unfold scaleByPower
    dsimp only
    split_ifs with hlarge hnonneg hinfinite hzero
    · omega
    · omega
    · exact ⟨_, rfl⟩
    · exact ⟨x, rfl⟩
    · omega
    · unfold largestPower at hlarge
      exact ih _ (by unfold largestPower; omega)

/-- Digits and an exponent denote a double if they are within the limit. -/
theorem exists_realNumber? (negative : Bool) (hm : m < UInt64.size)
    (hle : 0 ≤ e → 0 < m ∧ (m : ℚ) * 10 ^ e.toNat ≤ Binary64.safeLimit) :
    ∃ y, realNumber? negative m e = some (.real y) := by
  obtain ⟨y, hy⟩ : ∃ y, scaleByPower 4 (Binary64.ofInt m) e = some y := by
    -- Below zero nothing can overflow; from zero on the power is within one step.
    rcases lt_or_ge e 0 with hneg | hnonneg
    · exact exists_scaleByPower_of_neg 4 _ hneg
    · obtain ⟨k, rfl⟩ := Int.eq_ofNat_of_zero_le hnonneg
      obtain ⟨hpos, hlimit⟩ := hle hnonneg
      rw [Int.toNat_natCast] at hlimit
      have hk : k ≤ largestPower := Binary64.exponent_le_of_safe hpos hlimit
      have hfinite := Binary64.isFinite_ofInt_mul_tenPow hm hpos hk hlimit
      refine ⟨.ofInt m * .ofDecimal false 1 k, ?_⟩
      unfold scaleByPower
      dsimp only
      rw [Int.natAbs_natCast, if_pos hk, if_pos hnonneg,
        Binary64.isInfinite_of_isFinite hfinite]
      rfl
  exact ⟨_, by rw [realNumber?, hy]; rfl⟩

theorem mul_pow_le_ofDigitChars (ds : List Char) (m : Nat) :
    m * 10 ^ ds.length ≤ Nat.ofDigitChars 10 ds m := by
  induction ds generalizing m with
  | nil => simp
  | cons c ds ih =>
    rw [Nat.ofDigitChars_cons, List.length_cons, pow_succ']
    refine le_trans ?_ (ih _)
    rw [← mul_assoc]
    exact Nat.mul_le_mul_right _ (by omega)

/-- The digits that are used denote no more than all of them. -/
theorem extend_spec (ds : List Char) {m : Nat} (hm : m < UInt64.size) :
    m ≤ (extend m ds).1 ∧ (extend m ds).1 < UInt64.size ∧ (extend m ds).2 ≤ ds.length
      ∧ (extend m ds).1 * 10 ^ (ds.length - (extend m ds).2) ≤ Nat.ofDigitChars 10 ds m := by
  induction ds generalizing m with
  | nil => exact ⟨le_rfl, hm, le_rfl, by simp [extend]⟩
  | cons c ds ih =>
    -- The first digit that does not fit ends the reading; those left out count as zeros.
    have hnext : extend m (c :: ds) = if 10 * m + (c.toNat - '0'.toNat) < UInt64.size then
        ((extend (10 * m + (c.toNat - '0'.toNat)) ds).1,
          (extend (10 * m + (c.toNat - '0'.toNat)) ds).2 + 1) else (m, 0) := rfl
    rw [hnext]
    split_ifs with hfits
    · obtain ⟨hge, hlt, hused, hle⟩ := ih hfits
      refine ⟨by omega, hlt, ?_, ?_⟩
      · rw [List.length_cons]
        omega
      · rw [Nat.ofDigitChars_cons, List.length_cons, Nat.add_sub_add_right]
        exact hle
    · exact ⟨le_rfl, hm, Nat.zero_le _, mul_pow_le_ofDigitChars (c :: ds) m⟩

/-! ### Digits before and behind the point -/

variable {ds fraction : List Char}

theorem spanDigits_of_isDigit (hds : ∀ c ∈ ds, c.isDigit = true) :
    Numeral.spanDigits ds = (ds, []) := by
  have hspan : Numeral.spanDigits (ds ++ []) = (ds, []) :=
    spanDigits_append_of_isDigit hds (by rintro _ ⟨⟩)
  rwa [List.append_nil] at hspan

/-- A first digit behind the point is used. -/
theorem extend_pos (hfraction : ∀ c ∈ fraction, c.isDigit = true) (hne : fraction ≠ [])
    (hm : m < 10 ^ 16) : 0 < (extend m fraction).2 := by
  cases fraction with
  | nil => exact absurd rfl hne
  | cons c fraction =>
    have hdigit := Numeral.digitValue_le (hfraction c List.mem_cons_self)
    have hfits : 10 * m + Numeral.digitValue c < UInt64.size := by
      have hsize : UInt64.size = 18446744073709551616 := rfl
      omega
    rw [extend]
    dsimp only
    rw [if_pos hfits]
    exact Nat.succ_pos _

/-- Digits before and behind a point, and nothing more, denote a double. -/
theorem IsWhole.exists_scanUnsigned (hds : IsWhole ds) (hlength : ds.length ≤ 16)
    (hfraction : ∀ c ∈ fraction, c.isDigit = true) (hne : fraction ≠ []) (negative : Bool) :
    ∃ y, Json.scanUnsigned negative (ds ++ '.' :: fraction) = some (.real y, []) := by
  have hvalue : Nat.ofDigitChars 10 ds 0 < 10 ^ 16 :=
    lt_of_lt_of_le (Numeral.value_lt hds.isDigit) (Nat.pow_le_pow_right (by decide) hlength)
  have hsize : 10 ^ 16 < UInt64.size := by decide
  have hwhole : extend 0 ds = (Nat.ofDigitChars 10 ds 0, ds.length) :=
    extend_of_lt (hvalue.trans hsize)
  have hpoint : ∀ c ∈ ('.' :: fraction).head?, c.isDigit = false := fun c hc =>
    Option.some.inj hc ▸ rfl
  rw [hds.scanUnsigned hpoint, hwhole, scanFraction_point,
    spanDigits_of_isDigit hfraction, if_neg (by rwa [List.isEmpty_iff])]
  -- Every digit behind the point takes the exponent below zero.
  have hused := extend_pos hfraction hne hvalue
  obtain ⟨-, hlt, -, -⟩ := extend_spec fraction (hvalue.trans hsize)
  obtain ⟨y, hy⟩ := exists_realNumber? negative hlt
    (e := (ds.length - ds.length : Nat) - ((extend (Nat.ofDigitChars 10 ds 0) fraction).2 : Int))
    (fun hnonneg => by omega)
  exact ⟨y, by rw [scanAfterFraction_of_ne (by rintro _ ⟨⟩), hy]; rfl⟩

/-! ### Layouts -/

theorem isDigit_zeros (n : Nat) : ∀ c ∈ Binary64.zeros n, c.isDigit = true := fun _ hc =>
  List.eq_of_mem_replicate hc ▸ rfl

theorem isDigit_digitChars (n : Nat) : ∀ c ∈ Binary64.digitChars n, c.isDigit = true :=
  isDigit_toDigits n

theorem isWhole_zero : IsWhole ['0'] := isWhole_toDigits 0

/-- Digits that begin as those of a number other than zero may stand before a point. -/
theorem isWhole_of_head {n : Nat} (hn : n ≠ 0) (hds : ∀ c ∈ ds, c.isDigit = true)
    (hhead : ds.head? = (Binary64.digitChars n).head?) : IsWhole ds := by
  refine ⟨hds, ?_, fun rest hzero => ?_⟩
  · rintro rfl
    exact Nat.toDigits_ne_nil (List.head?_eq_none_iff.mp hhead.symm)
  · rw [hzero, List.head?_cons, eq_comm, List.head?_eq_some_iff] at hhead
    obtain ⟨rest', hchars⟩ := hhead
    exact absurd (toDigits_zero_cons hchars).2 hn

/-- A decimal without exponent is a double if its digits before the point are not too many. -/
theorem exists_scanUnsigned_positional (d : Binary64.Decimal)
    (h : d.digits = 0 ∨ d.exponent + (Binary64.digitChars d.digits).length ≤ 16)
    (negative : Bool) :
    ∃ y, scanUnsigned negative (Binary64.positional d ['.', '0']) = some (.real y, []) := by
  have hdigits := isDigit_digitChars d.digits
  have hpos : 0 < (Binary64.digitChars d.digits).length := Nat.length_toDigits_pos
  unfold Binary64.positional
  dsimp only
  -- Three layouts: no fraction, all digits behind the point, or the point among them.
  split_ifs with hexponent hzero hshort
  · exact isWhole_zero.exists_scanUnsigned (by decide) isWhole_zero.isDigit isWhole_zero.ne_nil
      negative
  · have hlength := h.resolve_left hzero
    refine IsWhole.exists_scanUnsigned (isWhole_of_head hzero ?_ ?_) ?_ isWhole_zero.isDigit
      isWhole_zero.ne_nil negative
    · exact List.forall_mem_append.mpr ⟨hdigits, isDigit_zeros _⟩
    · exact List.head?_append_of_ne_nil _ Nat.toDigits_ne_nil
    · rw [List.length_append, Binary64.zeros, List.length_replicate]
      omega
  · -- All digits stand behind the point.
    rw [List.append_assoc, List.cons_append, List.cons_append, List.nil_append]
    refine isWhole_zero.exists_scanUnsigned (by decide) ?_ ?_ negative
    · exact List.forall_mem_append.mpr ⟨isDigit_zeros _, hdigits⟩
    · exact List.append_ne_nil_of_right_ne_nil _ Nat.toDigits_ne_nil
  · have hne : d.digits ≠ 0 := by
      intro hzero
      rw [hzero] at hshort
      exact hshort (by rw [show (Binary64.digitChars 0).length = 1 by decide]; omega)
    have hlength := h.resolve_left hne
    refine IsWhole.exists_scanUnsigned (isWhole_of_head hne ?_ ?_) ?_ ?_ ?_ negative
    · exact fun c hc => hdigits c (List.mem_of_mem_take hc)
    · rw [List.head?_take, if_neg (by omega)]
    · rw [List.length_take]
      omega
    · exact fun c hc => hdigits c (List.mem_of_mem_drop hc)
    · rw [ne_eq, List.drop_eq_nil_iff]
      omega

/-- An exponent with its sign is read, if it is not too large. -/
theorem exists_scanExponent {lead : Int} (negative : Bool) (hm : m < UInt64.size)
    (hlead : 0 ≤ lead → lead.natAbs ≤ exponentLimit)
    (hle : 0 ≤ e + lead → 0 < m ∧ (m : ℚ) * 10 ^ (e + lead).toNat ≤ Binary64.safeLimit) :
    ∃ y, scanExponent negative m e (Binary64.signedChars lead) = some (.real y, []) := by
  -- The exponent is written with its sign, so that sign and digits read back.
  have hsign : Numeral.spanSign (Binary64.signedChars lead)
      = (decide (lead < 0), Binary64.digitChars lead.natAbs) := by
    unfold Binary64.signedChars
    split_ifs with hneg
    · rw [decide_eq_true hneg]
      rfl
    · rw [decide_eq_false hneg]
      rfl
  have hvalue : Numeral.value (Binary64.digitChars lead.natAbs) = lead.natAbs :=
    Nat.ofDigitChars_ten_toDigits
  have hsigned : Numeral.signed (decide (lead < 0)) lead.natAbs = lead := by
    unfold Numeral.signed
    split_ifs with hneg
    · have hlt := of_decide_eq_true hneg
      omega
    · have hge := of_decide_eq_false (Bool.eq_false_of_not_eq_true hneg)
      omega
  unfold scanExponent
  rw [hsign]
  dsimp only
  rw [spanDigits_of_isDigit (isDigit_digitChars lead.natAbs)]
  dsimp only
  rw [if_neg (by rw [List.isEmpty_iff]; exact Nat.toDigits_ne_nil), hvalue, hsigned]
  split_ifs with hlarge hup
  · exact absurd (hlead (by simpa using hup.2)) (not_le.mpr hlarge)
  · exact ⟨_, rfl⟩
  · obtain ⟨y, hy⟩ := exists_realNumber? negative hm hle
    exact ⟨y, by rw [hy]; rfl⟩

/-- The first digit, and the others after it. -/
theorem digitChars_cons {n : Nat} {c : Char} {cs : List Char} (hn : n ≠ 0)
    (hchars : Binary64.digitChars n = c :: cs) : IsWhole [c] ∧ (∀ d ∈ cs, d.isDigit = true)
      ∧ 0 < Numeral.digitValue c ∧ Numeral.digitValue c ≤ 9
      ∧ Nat.ofDigitChars 10 cs (Numeral.digitValue c) = n := by
  have hdigits := isDigit_digitChars n
  rw [hchars, List.forall_mem_cons] at hdigits
  obtain ⟨hc, hcs⟩ := hdigits
  refine ⟨isWhole_of_head hn (List.forall_mem_singleton.mpr hc) (by rw [hchars]; rfl), hcs,
    Numeral.digitValue_pos hc ?_, Numeral.digitValue_le hc, ?_⟩
  · rintro rfl
    exact hn (toDigits_zero_cons hchars).2
  · have hvalue : Nat.ofDigitChars 10 (Binary64.digitChars n) 0 = n := Nat.ofDigitChars_ten_toDigits
    rw [hchars, Nat.ofDigitChars_cons, Nat.mul_zero, Nat.zero_add] at hvalue
    exact hvalue

/-- With and without a point the digits are followed by the exponent. -/
theorem scanUnsigned_scientific {c : Char} {cs : List Char} (hc : IsWhole [c])
    (hcs : ∀ d ∈ cs, d.isDigit = true) (negative : Bool) (lead : Int) :
    scanUnsigned negative ([c] ++ (if cs = [] then [] else '.' :: cs)
      ++ 'e' :: Binary64.signedChars lead) = scanExponent negative
        (extend (Numeral.digitValue c) cs).1 (-(extend (Numeral.digitValue c) cs).2)
        (Binary64.signedChars lead) := by
  have hdigit := Numeral.digitValue_le (hc.isDigit c List.mem_cons_self)
  -- The digit in front is the whole part, all others are the fraction.
  have hfirst : extend 0 [c] = (Numeral.digitValue c, 1) := by
    rw [extend]
    dsimp only
    rw [Nat.mul_zero, Nat.zero_add, if_pos (lt_of_le_of_lt hdigit (by decide))]
    rfl
  have hletter : ∀ d ∈ ('e' :: Binary64.signedChars lead).head?, d.isDigit = false := fun d hd =>
    Option.some.inj hd ▸ rfl
  split_ifs with hnil
  · subst hnil
    rw [List.append_nil, hc.scanUnsigned hletter, hfirst]
    rfl
  · have hpoint : ∀ d ∈ ('.' :: (cs ++ 'e' :: Binary64.signedChars lead)).head?,
        d.isDigit = false := fun d hd => Option.some.inj hd ▸ rfl
    have htext : [c] ++ '.' :: cs ++ 'e' :: Binary64.signedChars lead
        = [c] ++ '.' :: (cs ++ 'e' :: Binary64.signedChars lead) := rfl
    rw [htext, hc.scanUnsigned hpoint, hfirst, scanFraction_point,
      spanDigits_append_of_isDigit hcs hletter, if_neg (by rwa [List.isEmpty_iff])]
    show scanExponent negative _ ((0 : Int) - _) _ = _
    rw [zero_sub]

/-- A decimal with an exponent is a double if it is within the limit. -/
theorem exists_scanUnsigned_scientific {d : Binary64.Decimal} (hne : d.digits ≠ 0)
    (hsafe : d.value ≤ Binary64.safeLimit) {c : Char} {cs : List Char}
    (hchars : Binary64.digitChars d.digits = c :: cs) (negative : Bool) :
    ∃ y, scanUnsigned negative ([c] ++ (if cs = [] then [] else '.' :: cs)
      ++ 'e' :: Binary64.signedChars (d.exponent + cs.length)) = some (.real y, []) := by
  obtain ⟨hc, hcs, hpos, hdigit, hvalue⟩ := digitChars_cons hne hchars
  obtain ⟨hge, hlt, hused, hle⟩ := extend_spec cs (lt_of_le_of_lt hdigit (by decide))
  have hleast := mul_pow_le_ofDigitChars cs (Numeral.digitValue c)
  rw [hvalue] at hle hleast
  rw [scanUnsigned_scientific hc hcs]
  generalize extend (Numeral.digitValue c) cs = p at *
  obtain ⟨m, used⟩ := p
  refine exists_scanExponent negative hlt (fun hlead => ?_) fun hexponent => ⟨by omega, ?_⟩
  · -- The power of ten of the leading digit alone is within the limit.
    have hpower : 1 * 10 ^ cs.length ≤ d.digits :=
      le_trans (Nat.mul_le_mul_right _ hpos) hleast
    have hsmall := Binary64.exponent_le_of_safe Nat.one_pos
      ((d.mul_pow_le_value hpower hlead).trans hsafe)
    have hlimit : exponentLimit = 2147483647 := by decide
    omega
  · have hplace : -(used : Int) + (d.exponent + cs.length)
        = d.exponent + (cs.length - used : Nat) := by omega
    rw [hplace] at hexponent ⊢
    exact (d.mul_pow_le_value hle hexponent).trans hsafe

/-- The two largest doubles are read as the largest, though their digits may be past the limit. -/
theorem scanNumber_largest (negative : Bool) {fraction : Nat} (hlarge : 2 ^ 52 - 2 ≤ fraction)
    (hlt : fraction < 2 ^ 52) :
    scanNumber (Binary64.ofFields negative (2046 * 2 ^ 52 + fraction)).scientific.toList
      = some (.real (.ofFields negative (2047 * 2 ^ 52 - 1)), []) := by
  obtain rfl | rfl : fraction = 4503599627370494 ∨ fraction = 4503599627370495 := by omega
  · cases negative <;> decide +kernel
  · cases negative <;> decide +kernel

/-- A sign changes only the sign of what is read. -/
theorem scanNumber_withSign {x : Binary64} {body : List Char} {p : JsonNumber × List Char}
    (h : scanUnsigned x.isNegative body = some p) :
    scanNumber (x.withSign body).toList = some p := by
  unfold Binary64.withSign
  rw [String.toList_ofList]
  cases hsign : x.isNegative with
  | true => rwa [hsign] at h
  | false =>
    rw [hsign] at h
    have hhead : ∀ c ∈ body.head?, c ≠ '-' := by
      rintro c hc rfl
      obtain ⟨s, rfl⟩ := List.head?_eq_some_iff.mp hc
      exact absurd h (by rintro ⟨⟩)
    exact (scanNumber_of_ne hhead).trans h

/-- The text of a double is a sign and what is read as a number, if its digits are within the
limit. -/
theorem exists_scanNumber_of_safe {x : Binary64} (hsafe : x.shortest.value ≤ Binary64.safeLimit) :
    ∃ y, scanNumber x.scientific.toList = some (.real y, []) := by
  obtain ⟨c, cs, hchars⟩ := List.exists_cons_of_ne_nil
    (show Binary64.digitChars x.shortest.digits ≠ [] from Nat.toDigits_ne_nil)
  have hlength : (Binary64.digitChars x.shortest.digits).length = cs.length + 1 := by
    rw [hchars, List.length_cons]
  unfold Binary64.scientific
  dsimp only
  -- The size of the leading digit decides between the two layouts.
  by_cases hplain : x.shortest.digits = 0
      ∨ (-5 ≤ x.shortest.exponent + (Binary64.digitChars x.shortest.digits).length - 1
        ∧ x.shortest.exponent + (Binary64.digitChars x.shortest.digits).length - 1 < 16)
  · obtain ⟨y, hy⟩ := exists_scanUnsigned_positional x.shortest
      (hplain.imp_right fun hlead => by omega) x.isNegative
    rw [if_pos hplain]
    exact ⟨y, scanNumber_withSign hy⟩
  · rw [not_or] at hplain
    obtain ⟨y, hy⟩ := exists_scanUnsigned_scientific hplain.1 hsafe hchars x.isNegative
    have hlead : x.shortest.exponent + ((cs.length + 1 : Nat) : Int) - 1
        = x.shortest.exponent + cs.length := by omega
    have hpoint : (if cs.length + 1 ≤ 1 then [] else '.' :: cs)
        = if cs = [] then [] else '.' :: cs := by
      cases cs <;> rfl
    rw [if_neg (not_or.mpr hplain), hlength, hlead, hchars, List.drop_one, List.tail_cons, hpoint]
    exact ⟨y, scanNumber_withSign hy⟩

/-- **The text of a finite double is read as a double.** -/
theorem exists_scanNumber_scientific {x : Binary64} (hx : x.isFinite = true) :
    ∃ y, scanNumber x.scientific.toList = some (.real y, []) := by
  by_cases hlarge : x.exponentField = 2046 ∧ 2 ^ 52 - 2 ≤ x.fractionField
  · rw [x.eq_ofFields, hlarge.1]
    exact ⟨_, scanNumber_largest x.isNegative hlarge.2 x.fractionField_lt⟩
  · refine exists_scanNumber_of_safe (x.value_shortest_le.trans ?_)
    exact Binary64.upperEnd_le_safeLimit hx fun hexponent => by omega

end Json

end GraphIndex
