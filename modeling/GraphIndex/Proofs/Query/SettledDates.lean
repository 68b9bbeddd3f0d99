import GraphIndex.Proofs.Engine.Answers
import GraphIndex.Proofs.Query.DateTexts

/-!
# What dates of a request become

The dates of a tree of conditions are settled clause by clause, and nothing else of the tree
changes: `Entry.mapClauses_eq_ok_iff` says so of any step that replaces clauses, as a correspondence
of two trees of one shape. `Clause.resolve_eq_ok_iff` says what the step is that settles a date.
Together they give what a request with settled dates looks like (`Query.settles_of_resolve`).
-/

namespace GraphIndex

/-! ### Trees of one shape -/

namespace Entry

mutual

/-- Whether two trees have one shape and their clauses are related one by one. -/
def Corresponds (related : Clause → Clause → Prop) : Entry → Entry → Prop
  | clause c, clause d => related c d
  | group kind members negated, group kind' members' negated' =>
    kind = kind' ∧ negated = negated' ∧ AllCorrespond related members members'
  | _, _ => False

/-- The same for lists of trees, one by one. -/
def AllCorrespond (related : Clause → Clause → Prop) : List Entry → List Entry → Prop
  | [], [] => True
  | e :: rest, e' :: rest' => e.Corresponds related e' ∧ AllCorrespond related rest rest'
  | _, _ => False

end

variable {ε : Type} {step : Clause → Except ε Clause} {related : Clause → Clause → Prop}

theorem mapClausesAll_eq_ok_iff {es : List Entry}
    (hes : ∀ e ∈ es, ∀ e', e.mapClauses step = .ok e' ↔ e.Corresponds related e') :
    ∀ {es'}, mapClausesAll step es = .ok es' ↔ AllCorrespond related es es' := by
  induction es with
  | nil =>
    intro es'
    cases es' with
    | nil => exact ⟨fun _ => trivial, fun _ => rfl⟩
    | cons e' es' => exact ⟨by rintro ⟨⟩, False.elim⟩
  | cons e es ih =>
    intro es'
    rw [List.forall_mem_cons] at hes
    rw [mapClausesAll_cons_eq_ok_iff]
    constructor
    · rintro ⟨e', rest, he', hrest, rfl⟩
      exact ⟨(hes.1 e').mp he', (ih hes.2).mp hrest⟩
    · intro h
      cases es' with
      | nil => exact h.elim
      | cons e' rest => exact ⟨e', rest, (hes.1 e').mpr h.1, (ih hes.2).mpr h.2, rfl⟩

/-- **A step on clauses changes nothing but clauses**: it succeeds on a tree with a tree of the same
shape, each clause of which is what the step makes of the clause in its place. -/
theorem mapClauses_eq_ok_iff (hstep : ∀ c d, step c = .ok d ↔ related c d) (e : Entry) :
    ∀ e', e.mapClauses step = .ok e' ↔ e.Corresponds related e' := by
  induction e using Entry.induction with
  | clause c =>
    intro e'
    rw [mapClauses, map_eq_ok_iff]
    constructor
    · rintro ⟨d, hd, rfl⟩
      exact (hstep c d).mp hd
    · intro h
      cases e' with
      | clause d => exact ⟨d, (hstep c d).mpr h, rfl⟩
      | group kind members negated => exact h.elim
  | group kind members negated ih =>
    intro e'
    rw [mapClauses, map_eq_ok_iff]
    constructor
    · rintro ⟨members', hmembers, rfl⟩
      exact ⟨rfl, rfl, (mapClausesAll_eq_ok_iff ih).mp hmembers⟩
    · intro h
      cases e' with
      | clause d => exact h.elim
      | group kind' members' negated' =>
        obtain ⟨rfl, rfl, hmembers⟩ := h
        exact ⟨members', (mapClausesAll_eq_ok_iff ih).mpr hmembers, rfl⟩

end Entry

/-! ### The date of a clause -/

theorem isDateField_of_mem {field : String} (h : field ∈ ["created", "updated", "doneAt"]) :
    isDateField field = true := by
  simp only [List.mem_cons, List.not_mem_nil, or_false] at h
  rcases h with rfl | rfl | rfl <;> rfl

namespace Clause

/-- What a clause is once its date is settled at a given time. Only its value may differ. A test for
presence or absence stays as it is. A value that is compared with one of the three date fields is
the integer that it denotes, and so is a text on any other field that looks like a date; every other
value is kept. -/
structure Settles (now : Int) (c d : Clause) : Prop where
  eq_with_value : d = { c with value := d.value }
  eq_of_isExistenceTest : c.operator.isExistenceTest = true → d = c
  exists_integer : c.operator.isExistenceTest = false →
    c.field ∈ ["created", "updated", "doneAt"] →
      ∃ ms, Moment.ofOperand now c.value = .ok ms ∧ d.value = .integer ms
  eq_or_exists_integer : c.operator.isExistenceTest = false →
    c.field ∉ ["created", "updated", "doneAt"] →
      d = c ∨ ∃ s ms, c.value = .text s ∧ Moment.looksLikeDate s = true
        ∧ Moment.ofText now s = .ok ms ∧ d.value = .integer ms
  looksLikeDate_eq_false : c.operator.isExistenceTest = false →
    ∀ s, d.value = .text s → Moment.looksLikeDate s = false

variable {now : Int} {c d : Clause}

/-- A clause that is kept settles if no date is wanted of it. -/
theorem Settles.refl (hdate : c.operator.isExistenceTest = true ∨
    c.field ∉ ["created", "updated", "doneAt"] ∧
      ∀ s, c.value = .text s → Moment.looksLikeDate s = false) : c.Settles now c where
  eq_with_value := rfl
  eq_of_isExistenceTest _ := rfl
  exists_integer htest hfield := by
    rcases hdate with htrue | ⟨hother, -⟩
    · exact absurd (htest.symm.trans htrue) Bool.false_ne_true
    · exact absurd hfield hother
  eq_or_exists_integer _ _ := Or.inl rfl
  looksLikeDate_eq_false htest := by
    rcases hdate with htrue | ⟨-, htexts⟩
    · exact absurd (htest.symm.trans htrue) Bool.false_ne_true
    · exact htexts

theorem Settles.of_resolve (h : c.resolve now = .ok d) : c.Settles now d := by
  have hmem : isDateField c.field = false → c.field ∉ ["created", "updated", "doneAt"] :=
    fun hother hmem => Bool.false_ne_true (hother.symm.trans (isDateField_of_mem hmem))
  rcases resolve_cases h with ⟨rfl, hkept⟩ | ⟨htest, ms, rfl, hvalue⟩
  · exact .refl (hkept.imp_right fun ⟨hother, htexts⟩ => ⟨hmem hother, htexts⟩)
  refine ⟨rfl, fun htrue => absurd (htest.symm.trans htrue) Bool.false_ne_true, fun _ hfield => ?_,
    fun _ hfield => ?_, fun _ s => by rintro ⟨⟩⟩
  · rcases hvalue with ⟨-, hms⟩ | ⟨hother, -⟩
    · exact ⟨ms, hms, rfl⟩
    · exact absurd hfield (hmem hother)
  · rcases hvalue with ⟨hdate, -⟩ | ⟨-, s, hvalue, hlooks, hms⟩
    · exact absurd (mem_of_isDateField hdate) hfield
    · exact Or.inr ⟨s, ms, hvalue, hlooks, hms, rfl⟩

theorem Settles.resolve (h : c.Settles now d) : c.resolve now = .ok d := by
  unfold Clause.resolve
  by_cases htest : c.operator.isExistenceTest = true
  · rw [if_pos htest, h.eq_of_isExistenceTest htest]
  rw [if_neg htest]
  rw [Bool.not_eq_true] at htest
  by_cases hfield : c.field ∈ ["created", "updated", "doneAt"]
  · obtain ⟨ms, hms, hvalue⟩ := h.exists_integer htest hfield
    rw [if_pos (isDateField_of_mem hfield), hms, h.eq_with_value, hvalue]
    rfl
  rw [if_neg fun hdate => hfield (mem_of_isDateField hdate)]
  -- On any other field the value is kept, unless it is a text that looks like a date.
  rcases h.eq_or_exists_integer htest hfield with hkept | ⟨s, ms, hvalue, hlooks, hms, hd⟩
  · have htexts := h.looksLikeDate_eq_false htest
    rw [hkept] at htexts ⊢
    split
    · next s hvalue => rw [if_neg (Bool.eq_false_iff.mp (htexts s hvalue))]
    · rfl
  · rw [hvalue, h.eq_with_value, hd]
    dsimp only
    rw [if_pos hlooks, hms]
    rfl

/-- **A date is settled** exactly as `Settles` says. -/
theorem resolve_eq_ok_iff : c.resolve now = .ok d ↔ c.Settles now d :=
  ⟨Settles.of_resolve, Settles.resolve⟩

end Clause

/-! ### The dates of a request -/

/-- **Dates settle once.** Where the dates of a query resolve, the query differs from what it was in
the values of its clauses only, each of which is settled; and its dates resolve to themselves from
then on, whatever the time. -/
theorem Query.settles_of_resolve {q a : Query} {now : Int} (h : q.resolve now = .ok a) :
    a = { q with conditions := a.conditions }
      ∧ Entry.AllCorrespond (Clause.Settles now) q.conditions a.conditions
      ∧ ∀ now', a.resolve now' = .ok a := by
  obtain ⟨conditions, hconditions, ha⟩ := Query.resolve_eq_ok_iff.mp h
  refine ⟨by rw [ha], ?_, Query.isResolved_of_resolve h⟩
  have htrees : ∀ e ∈ q.conditions, ∀ e', e.mapClauses (Clause.resolve now) = .ok e'
      ↔ e.Corresponds (Clause.Settles now) e' := fun e _ =>
    e.mapClauses_eq_ok_iff fun _ _ => Clause.resolve_eq_ok_iff
  rw [ha]
  exact (Entry.mapClausesAll_eq_ok_iff htrees).mp hconditions

/-- Dates of every kind: a negated one on a date field and a number there, one on another field, a
text that is none, and a test for presence whose value looks like one. -/
def datedQuery (sinceWeek today done : Operand) : Query :=
  ⟨"task", [.group .any [.clause { Clause.plain "created" (.compare .less) sinceWeek with
      negated := true }, .clause (.equalTo "due" today), .clause (.equalTo "Status" (.text "Open"))]
      true, .clause (.equalTo "doneAt" done), .clause ⟨"updated", .present, .text "7d", false⟩],
    some ⟨"due", true⟩, none, 20, 40⟩

/-- In the middle of January 2024. The dates stay those of that day at any later time. -/
theorem settles_of_resolve_january :
    ∃ q a, q = datedQuery (.text "7d") (.text "Today") (.real (.ofInt 2))
      ∧ a = datedQuery (.integer 1704672000000) (.integer 1705276800000) (.integer 2)
      ∧ q.resolve 1705329342123 = .ok a
      ∧ Entry.AllCorrespond (Clause.Settles 1705329342123) q.conditions a.conditions
      ∧ a.resolve 1893456000000 = .ok a := by
  have h : (datedQuery (.text "7d") (.text "Today") (.real (.ofInt 2))).resolve 1705329342123
      = .ok (datedQuery (.integer 1704672000000) (.integer 1705276800000) (.integer 2)) := by
    rfl
  obtain ⟨-, hconditions, hsettled⟩ := Query.settles_of_resolve h
  exact ⟨_, _, rfl, rfl, h, hconditions, hsettled _⟩

end GraphIndex
