import GraphIndex.Proofs.Plan.Complement
import GraphIndex.Proofs.Query.Language.Words
import GraphIndex.Proofs.Query.ShortValues
import GraphIndex.Query.Resolve

/-!
# Texts that look like dates

A text on a field without dates becomes a point in time when it looks like a date, so that a text
which looks like one and denotes none would fail a request that never asked for a date. Only a
relative date can do so, and only through its count:

* `Moment.isRelative_iff`: a relative date is what `Moment.relative?` splits into count and unit;
* `Moment.span?_of_isDigit`: a count in ASCII digits is multiplied out without a fault exactly if
  the milliseconds it goes back fit sixty-four bits, for no step on the way is larger;
* `Moment.exists_ofText`: any other text that looks like a date denotes a point in time;
* `Clause.exists_of_resolve_eq_error`, `Entry.exists_of_mapClausesAll_eq_error`: which condition
  makes the dates of a request fail.

`Moment.dates_resolve` puts them together.
-/

namespace GraphIndex

namespace Moment

open Calendar

variable {s : String} {ds : List Char} {days : Nat} {now : Int}

/-! ### Relative dates -/

/-- A relative date: a count in digits of any script before the letter of a unit of time. -/
structure IsRelative (s : String) (digits : List Char) (days : Nat) : Prop where
  ne_nil : digits ≠ []
  isDecimalDigit : ∀ c ∈ digits, Text.isDecimalDigit c = true
  exists_unit : ∃ u, unitDays u = some days
    ∧ (Text.lowercase (Text.trim s)).toList = digits ++ [u]

/-- The milliseconds that a count of units goes back. -/
def goesBack (digits : List Char) (days : Nat) : Int := Numeral.value digits * days * dayMs

/-- A count in ASCII digits that goes back no more milliseconds than sixty-four bits can hold. -/
structure IsCounted (digits : List Char) (days : Nat) : Prop where
  isDigit : ∀ c ∈ digits, c.isDigit = true
  goesBack_le : goesBack digits days ≤ Int64.maxValue.toInt

/-- A text that is no relative date or one whose count is counted. -/
def IsCountable (s : String) : Prop := ∀ digits days, IsRelative s digits days →
  IsCounted digits days

theorem isDecimalDigit_of_unitDays {u : Char} (h : unitDays u = some days) :
    Text.isDecimalDigit u = false ∧ 0 < days := by
  unfold unitDays at h
  split at h <;> simp only [Option.some.injEq, reduceCtorEq] at h <;> subst h <;> decide

theorem relative?_eq_some_iff {l : List Char} :
    relative? l = some (ds, days) ↔ ds ≠ [] ∧ (∀ c ∈ ds, Text.isDecimalDigit c = true)
      ∧ ∃ u, unitDays u = some days ∧ l = ds ++ [u] := by
  constructor
  · intro h
    unfold relative? at h
    split at h
    · next u hdrop =>
      split at h
      · exact absurd h (by simp)
      · next ds' days' hunit hne =>
        obtain ⟨rfl, rfl⟩ := Prod.mk.inj (Option.some.inj h)
        refine ⟨hne, fun c hc => List.mem_takeWhile_imp hc, u, hunit, ?_⟩
        rw [← hdrop, List.takeWhile_append_dropWhile]
      · exact absurd h (by simp)
    · exact absurd h (by simp)
  · rintro ⟨hne, hds, u, hunit, rfl⟩
    -- The unit is no digit, so the digits end before it.
    have hu := (isDecimalDigit_of_unitDays hunit).1
    obtain ⟨htake, hdrop⟩ : (ds ++ [u]).takeWhile Text.isDecimalDigit = ds
        ∧ (ds ++ [u]).dropWhile Text.isDecimalDigit = [u] :=
      Language.span_append hds (by simpa using hu)
    unfold relative?
    rw [hdrop, htake]
    dsimp only
    rw [hunit]
    cases ds with
    | nil => exact absurd rfl hne
    | cons c ds => rfl

theorem isRelative_iff :
    IsRelative s ds days ↔ relative? (Text.lowercase (Text.trim s)).toList = some (ds, days) := by
  rw [relative?_eq_some_iff]
  exact ⟨fun h => ⟨h.ne_nil, h.isDecimalDigit, h.exists_unit⟩, fun h => ⟨h.1, h.2.1, h.2.2⟩⟩

theorem IsRelative.days_pos (h : IsRelative s ds days) : 0 < days := by
  obtain ⟨u, hunit, -⟩ := h.exists_unit
  exact (isDecimalDigit_of_unitDays hunit).2

/-! ### Counts -/

theorem int64?_of_isDigit (hne : ds ≠ []) (hds : ∀ c ∈ ds, c.isDigit = true) :
    Numeral.int64? ds = if (Numeral.value ds : Int) ≤ Int64.maxValue.toInt then
      some (Int64.ofInt (Numeral.value ds)) else none := by
  have hproper : (!ds.isEmpty && ds.all Char.isDigit) = true := by simpa [hne] using hds
  unfold Numeral.int64?
  rw [Language.spanSign_of_digits hds]
  simp only [hproper, Numeral.signed, fitsInt64_of_nonneg (Int.natCast_nonneg _),
    Bool.false_eq_true, if_false, if_true]

theorem one_le_dayMs : 1 ≤ dayMs := by
  unfold dayMs
  omega

theorem mul64?_of_nonneg {a b : Int} (h : 0 ≤ a * b) :
    mul64? a b = if a * b ≤ Int64.maxValue.toInt then some (a * b) else none := by
  unfold mul64?
  simp only [fitsInt64_of_nonneg h]

/-- **A count of units is multiplied out** unless the product is too large. The count itself and
the number of days are no larger than the product, so they fit if it does. -/
theorem span?_of_isDigit (hne : ds ≠ []) (hds : ∀ c ∈ ds, c.isDigit = true) (hdays : 0 < days) :
    span? ds days = if goesBack ds days ≤ Int64.maxValue.toInt then some (goesBack ds days)
      else none := by
  have hn : (0 : Int) ≤ Numeral.value ds := Int.natCast_nonneg _
  -- Each product is at least the one before it, so that only the last bound counts.
  have htotal : (Numeral.value ds : Int) ≤ Numeral.value ds * days :=
    le_mul_of_one_le_right hn (by omega)
  have hback : (Numeral.value ds * days : Int) ≤ goesBack ds days :=
    le_mul_of_one_le_right (hn.trans htotal) one_le_dayMs
  unfold span?
  rw [int64?_of_isDigit hne hds]
  by_cases hcount : (Numeral.value ds : Int) ≤ Int64.maxValue.toInt
  · have hvalue : (Int64.ofInt (Numeral.value ds)).toInt = Numeral.value ds :=
      toInt_ofInt_of_fitsInt64 ((fitsInt64_of_nonneg hn).mpr hcount)
    simp only [if_pos hcount, Option.bind_eq_bind, Option.bind_some, hvalue,
      mul64?_of_nonneg (hn.trans htotal)]
    by_cases hfits : (Numeral.value ds * days : Int) ≤ Int64.maxValue.toInt
    · rw [if_pos hfits, Option.bind_some]
      exact mul64?_of_nonneg ((hn.trans htotal).trans hback)
    · rw [if_neg hfits, Option.bind_none, if_neg (by omega)]
  · rw [if_neg hcount, if_neg (by omega)]
    rfl

/-! ### The point in time of a text -/

theorem ofText_of_isRelative (h : IsRelative s ds days) :
    ofText now s = ((span? ds days).map (before (midnight now))).getD
      (.error (.invalidDate (Text.lowercase (Text.trim s)))) := by
  rw [isRelative_iff] at h
  -- Neither word begins with a digit.
  have hword : ∀ w : String, relative? w.toList = none → Text.lowercase (Text.trim s) ≠ w := by
    rintro w hw rfl
    rw [hw] at h
    exact absurd h (by simp)
  unfold ofText
  dsimp only
  rw [if_neg (hword "today" (by decide)), if_neg (hword "yesterday" (by decide)), h]
  dsimp only
  cases span? ds days <;> rfl

theorem ofText_of_isCounted (h : IsRelative s ds days) (hcounted : IsCounted ds days) :
    ofText now s = before (midnight now) (goesBack ds days) := by
  rw [ofText_of_isRelative h, span?_of_isDigit h.ne_nil hcounted.isDigit h.days_pos,
    if_pos hcounted.goesBack_le]
  rfl

theorem ofText_of_lt_goesBack (h : IsRelative s ds days) (hds : ∀ c ∈ ds, c.isDigit = true)
    (hlarge : Int64.maxValue.toInt < goesBack ds days) :
    ofText now s = .error (.invalidDate (Text.lowercase (Text.trim s))) := by
  rw [ofText_of_isRelative h, span?_of_isDigit h.ne_nil hds h.days_pos, if_neg (by omega)]
  rfl

theorem before_of_fitsInt64 {ms back : Int} (h : fitsInt64 (ms - back) = true) :
    ∃ result, before ms back = .ok result ∧ result.toInt = ms - back :=
  ⟨_, if_pos h, toInt_ofInt_of_fitsInt64 h⟩

theorem before_of_not_fitsInt64 {ms back : Int} (h : ¬ fitsInt64 (ms - back) = true) :
    before ms back = .error .overflow :=
  if_neg h

/-- Since the start of 1970 a count that is counted leads no further back than sixty-four bits. -/
theorem fitsInt64_midnight_sub_goesBack (hnow : 0 ≤ now) (hmax : now ≤ Int64.maxValue.toInt)
    (hcounted : IsCounted ds days) : fitsInt64 (midnight now - goesBack ds days) = true := by
  have hmidnight : 0 ≤ midnight now ∧ midnight now ≤ now := by
    unfold midnight dayMs
    omega
  have hback : 0 ≤ goesBack ds days := by
    unfold goesBack dayMs
    positivity
  have hle := hcounted.goesBack_le
  -- At the earliest the day is the first one and the count the largest, just above the minimum.
  unfold fitsInt64
  rw [decide_eq_true_iff, Int64.toInt_minValue]
  rw [Int64.toInt_maxValue] at hmax hle ⊢
  omega

/-- **Any other text that looks like a date denotes a point in time.** -/
theorem exists_ofText (hnow : 0 ≤ now) (hmax : now ≤ Int64.maxValue.toInt)
    (hlooks : looksLikeDate s = true) (hcountable : IsCountable s) :
    ∃ ms, ofText now s = .ok ms := by
  unfold looksLikeDate at hlooks
  simp only [Bool.or_eq_true, beq_iff_eq, Bool.and_eq_true] at hlooks
  -- The resolver asks what the recogniser asked, in the same order.
  cases hrelative : relative? (Text.lowercase (Text.trim s)).toList with
  | some p =>
    have h : IsRelative s p.1 p.2 := isRelative_iff.mpr hrelative
    have hcounted := hcountable _ _ h
    obtain ⟨ms, hms, -⟩ :=
      before_of_fitsInt64 (fitsInt64_midnight_sub_goesBack hnow hmax hcounted)
    exact ⟨ms, (ofText_of_isCounted h hcounted).trans hms⟩
  | none =>
    rw [hrelative] at hlooks
    unfold ofText
    dsimp only
    rcases hlooks with ((htoday | hyesterday) | hsome) | ⟨-, hwritten⟩
    · exact ⟨_, if_pos htoday⟩
    · exact ⟨_, by rw [hyesterday, if_neg (by decide), if_pos rfl]⟩
    · exact absurd hsome (by simp)
    · obtain ⟨ms, hms⟩ := Option.isSome_iff_exists.mp hwritten
      split_ifs
      · exact ⟨_, rfl⟩
      · exact ⟨_, rfl⟩
      · rw [hrelative, hms]
        exact ⟨_, rfl⟩

end Moment

/-! ### Conditions -/

theorem mem_of_isDateField {field : String} (h : isDateField field = true) :
    field ∈ ["created", "updated", "doneAt"] := by
  unfold isDateField at h
  split at h
  · next k hcolumn =>
    unfold NodeColumn.ofField? at hcolumn
    split at hcolumn <;> cases hcolumn <;> first | exact absurd h Bool.false_ne_true | simp
  · exact absurd h Bool.false_ne_true

namespace Clause

variable {c : Clause} {now : Int} {err : QueryError}

/-- **The dates of a condition fail** only where a date is wanted or a count is not counted. -/
theorem exists_of_resolve_eq_error (hnow : 0 ≤ now) (hmax : now ≤ Int64.maxValue.toInt)
    (h : c.resolve now = .error err) :
    c.operator.isExistenceTest = false ∧ (c.field ∈ ["created", "updated", "doneAt"]
      ∨ ∃ s, c.value = .text s ∧ Moment.looksLikeDate s = true ∧ ¬ Moment.IsCountable s) := by
  unfold resolve at h
  split_ifs at h with htest hdate
  · exact ⟨Bool.eq_false_iff.mpr htest, Or.inl (mem_of_isDateField hdate)⟩
  refine ⟨Bool.eq_false_iff.mpr htest, Or.inr ?_⟩
  split at h
  · next s hvalue =>
    split_ifs at h with hlooks
    refine ⟨s, hvalue, hlooks, fun hcountable => ?_⟩
    obtain ⟨ms, hms⟩ := Moment.exists_ofText hnow hmax hlooks hcountable
    rw [hms] at h
    exact absurd h (by rintro ⟨⟩)
  · exact absurd h (by rintro ⟨⟩)

/-- A text that looks like a date and denotes a point in time becomes it on every field. -/
theorem resolve_of_looksLikeDate {s : String} {ms : Int64}
    (htest : c.operator.isExistenceTest = false) (hvalue : c.value = .text s)
    (hlooks : Moment.looksLikeDate s = true) (hms : Moment.ofText now s = .ok ms) :
    c.resolve now = .ok { c with value := .integer ms } := by
  unfold resolve
  rw [htest, hvalue]
  simp only [Bool.false_eq_true, if_false, hlooks, if_true, Moment.ofOperand, hms]
  split_ifs <;> rfl

end Clause

namespace Entry

variable {ε : Type} {step : Clause → Except ε Clause} {err : ε}

/-- The fault of a list of trees is that of one of its clauses. -/
theorem exists_of_mapClausesAll_eq_error {es : List Entry}
    (hes : ∀ e ∈ es, e.mapClauses step = .error err → ∃ c ∈ e.clauses, step c = .error err)
    (h : mapClausesAll step es = .error err) : ∃ c ∈ allClauses es, step c = .error err := by
  induction es with
  | nil => exact absurd h (by rintro ⟨⟩)
  | cons e es ih =>
    rw [List.forall_mem_cons] at hes
    rw [mapClausesAll, bind_eq_error_iff] at h
    simp only [allClauses, List.mem_append]
    -- The first tree fails, or those behind it do.
    rcases h with he | ⟨e', -, h⟩
    · obtain ⟨c, hc, hstep⟩ := hes.1 he
      exact ⟨c, Or.inl hc, hstep⟩
    · rcases bind_eq_error_iff.mp h with hrest | ⟨es', -, hpure⟩
      · obtain ⟨c, hc, hstep⟩ := ih hes.2 hrest
        exact ⟨c, Or.inr hc, hstep⟩
      · exact absurd hpure (by rintro ⟨⟩)

/-- The same for a tree. -/
theorem exists_of_mapClauses_eq_error (e : Entry) :
    e.mapClauses step = .error err → ∃ c ∈ e.clauses, step c = .error err := by
  induction e using Entry.induction with
  | clause c =>
    intro h
    rw [mapClauses, map_eq_error_iff] at h
    exact ⟨c, List.mem_singleton_self c, h⟩
  | group kind members negated ih =>
    intro h
    rw [mapClauses, map_eq_error_iff] at h
    exact exists_of_mapClausesAll_eq_error ih h

end Entry

namespace Shorthand

/-- **An ordering that a text stands for** compares with what looks like a date. -/
theorem exists_of_isOrdering {field raw : String}
    (h : (textClause field raw).operator.isOrdering = true) :
    ∃ c token, textClause field raw = .plain field (.compare c) (.text token)
      ∧ Moment.looksLikeDate token = true := by
  obtain ⟨op, v, hmeans⟩ := exists_textMeans raw
  rw [(textMeans_iff field).mp hmeans] at h ⊢
  cases hmeans with
  | part s => exact absurd h Bool.false_ne_true
  | escaped s => exact absurd h Bool.false_ne_true
  | date hc hs => exact ⟨_, _, rfl, hs⟩
  | itself hpart hescaped hdate => exact absurd h Bool.false_ne_true

end Shorthand

/-! ### The dates of a request -/

namespace Moment

/-- **What looks like a date resolves**, at any time since the start of 1970, except for a relative
date that counts further back than sixty-four bits reach.

* A text that looks like a date denotes a point in time if it is countable.
* A relative date in ASCII digits goes back as far as it says, or is refused.
* The dates of a request fail because of one of its conditions. It compares one of the three date
  fields, or a text that looks like a date and is not countable.
* An ordering that a short text stands for compares with a text that looks like a date; if that is
  countable the condition resolves to a comparison with an integer. -/
theorem dates_resolve {now : Int} (hnow : 0 ≤ now) (hmax : now ≤ Int64.maxValue.toInt) :
    (∀ s, looksLikeDate s = true → IsCountable s → ∃ ms, ofText now s = .ok ms)
    ∧ (∀ s digits days, IsRelative s digits days → (∀ c ∈ digits, c.isDigit = true) →
        (goesBack digits days ≤ Int64.maxValue.toInt → ∃ ms, ofText now s = .ok ms
          ∧ ms.toInt = Calendar.midnight now - goesBack digits days)
        ∧ (Int64.maxValue.toInt < goesBack digits days →
          ofText now s = .error (.invalidDate (Text.lowercase (Text.trim s)))))
    ∧ (∀ es err, Entry.resolveAll now es = .error err → ∃ c ∈ Entry.allClauses es,
        c.resolve now = .error err ∧ c.operator.isExistenceTest = false
          ∧ (c.field ∈ ["created", "updated", "doneAt"]
            ∨ ∃ s, c.value = .text s ∧ looksLikeDate s = true ∧ ¬ IsCountable s))
    ∧ ∀ field raw, (Shorthand.textClause field raw).operator.isOrdering = true →
        ∃ c token, Shorthand.textClause field raw = .plain field (.compare c) (.text token)
          ∧ looksLikeDate token = true ∧ (IsCountable token → ∃ ms,
            (Shorthand.textClause field raw).resolve now
              = .ok (.plain field (.compare c) (.integer ms))) := by
  refine ⟨fun s => exists_ofText hnow hmax,
    fun s digits days h hdigits => ⟨fun hle => ?_, fun hlt => ?_⟩,
    fun es err h => ?_, fun field raw h => ?_⟩
  · have hcounted : IsCounted digits days := ⟨hdigits, hle⟩
    rw [ofText_of_isCounted h hcounted]
    exact before_of_fitsInt64 (fitsInt64_midnight_sub_goesBack hnow hmax hcounted)
  · exact ofText_of_lt_goesBack h hdigits hlt
  -- The fault is that of one condition, and a condition fails in two ways only.
  · obtain ⟨c, hc, hresolve⟩ := Entry.exists_of_mapClausesAll_eq_error
      (fun e _ => Entry.exists_of_mapClauses_eq_error e) h
    exact ⟨c, hc, hresolve, Clause.exists_of_resolve_eq_error hnow hmax hresolve⟩
  · obtain ⟨c, token, hclause, hlooks⟩ := Shorthand.exists_of_isOrdering h
    refine ⟨c, token, hclause, hlooks, fun hcountable => ?_⟩
    obtain ⟨ms, hms⟩ := exists_ofText hnow hmax hlooks hcountable
    rw [hclause]
    exact ⟨ms, Clause.resolve_of_looksLikeDate rfl rfl hlooks hms⟩

theorem isCountable_of_relative?_eq_none {s : String}
    (h : relative? (Text.lowercase (Text.trim s)).toList = none) : IsCountable s := by
  intro digits days hrelative
  rw [isRelative_iff, h] at hrelative
  exact absurd hrelative (by simp)

/-- The middle of January 2024: two weeks before it the year began. -/
theorem dates_resolve_january :
    (0 : Int) ≤ 1705329342123 ∧ 1705329342123 ≤ Int64.maxValue.toInt
      ∧ (looksLikeDate "2024-01-15" = true ∧ ∃ ms, ofText 1705329342123 "2024-01-15" = .ok ms)
      ∧ (IsRelative "2w" ['2'] 7 ∧ ∃ ms, ofText 1705329342123 "2w" = .ok ms
        ∧ ms.toInt = 1704067200000)
      ∧ (Entry.resolveAll 1705329342123 [.clause (.equalTo "created" (.text "soon"))]
          = .error (.invalidDate "soon")
        ∧ ∃ c ∈ Entry.allClauses [.clause (.equalTo "created" (.text "soon"))],
          c.field ∈ ["created", "updated", "doneAt"])
      ∧ ∃ ms, (Shorthand.textClause "due" ">yesterday").resolve 1705329342123
        = .ok (.plain "due" (.compare .greater) (.integer ms)) := by
  have hnow : (0 : Int) ≤ 1705329342123 := by decide
  have hmax : 1705329342123 ≤ Int64.maxValue.toInt := by decide +kernel
  obtain ⟨hlooks, hrelative, hfails, horders⟩ := dates_resolve hnow hmax
  have hwritten : looksLikeDate "2024-01-15" = true := by decide +kernel
  have hweeks : IsRelative "2w" ['2'] 7 := isRelative_iff.mpr (by decide +kernel)
  have hsoon : Entry.resolveAll 1705329342123 [.clause (.equalTo "created" (.text "soon"))]
      = .error (.invalidDate "soon") := by rfl
  refine ⟨hnow, hmax, ⟨hwritten, hlooks _ hwritten
    (isCountable_of_relative?_eq_none (by decide +kernel))⟩, ⟨hweeks, ?_⟩, ⟨hsoon, ?_⟩, ?_⟩
  · obtain ⟨ms, hms, hback⟩ := (hrelative "2w" ['2'] 7 hweeks (by simp)).1 (by decide +kernel)
    exact ⟨ms, hms, hback.trans (by decide +kernel)⟩
  · obtain ⟨c, hc, -, -, hfield | ⟨s, hvalue, hlooks, -⟩⟩ :=
      hfails _ _ hsoon
    · exact ⟨c, hc, hfield⟩
    · rw [List.mem_singleton.mp hc] at hvalue
      obtain rfl : "soon" = s := Operand.text.inj hvalue
      exact absurd hlooks (by decide +kernel)
  · obtain ⟨c, token, hclause, -, hresolves⟩ := horders "due" ">yesterday" (by decide +kernel)
    have hgreater : Shorthand.textClause "due" ">yesterday"
        = .plain "due" (.compare .greater) (.text "yesterday") := by decide +kernel
    obtain ⟨-, hc, htoken, -⟩ := Clause.mk.inj (hgreater.symm.trans hclause)
    obtain rfl := Operator.compare.inj hc
    obtain rfl := Operand.text.inj htoken
    exact hresolves (isCountable_of_relative?_eq_none (by decide +kernel))

/-- More days than sixty-four bits count look like a date and denote none. -/
theorem not_dates_resolve_count :
    looksLikeDate "99999999999999999999d" = true
      ∧ ofText 1705329342123 "99999999999999999999d"
        = .error (.invalidDate "99999999999999999999d")
      ∧ (Clause.equalTo "Code" (.text "99999999999999999999d")).resolve 1705329342123
        = .error (.invalidDate "99999999999999999999d")
      ∧ (Shorthand.textClause "due" ">99999999999999999999d").operator = .compare .greater
      ∧ (Shorthand.textClause "due" ">99999999999999999999d").resolve 1705329342123
        = .error (.invalidDate "99999999999999999999d") := by
  exact ⟨by decide +kernel, by rfl, by rfl, by decide +kernel, by rfl⟩

end Moment

end GraphIndex
