import GraphIndex.Proofs.Query.KleeneTrees
import GraphIndex.Query.Shorthand

/-!
# What short values of a field mean

A condition on one field in its short form is a text, a number, a truth value, null, a list of
values or an object of operators. The module reads each of them without building a tree:
`Shorthand.TextMeans` says what a text asks of a field, `Shorthand.operatorsTruth` is the truth of
an object of operators, which may be unknown until `not` is applied to it, and
`Shorthand.FieldHolds` puts them together. `Shorthand.allTrue_of_fieldEntries` says that the trees
made from a value have this meaning.
-/

namespace GraphIndex

namespace Shorthand

/-! ### Texts -/

/-- What a text asks of a field: an operator and a value. -/
inductive TextMeans : String → Operator → Operand → Prop
  /-- A part of the value of the field. -/
  | part (s : String) : TextMeans ("~" ++ s) .contains (.text s)
  /-- A text that itself begins with the mark of parts. -/
  | escaped (s : String) : TextMeans ("\\~" ++ s) (.compare .equal) (.text ("~" ++ s))
  /-- A comparison with a date. -/
  | date {c : Comparison} {s : String} (hc : c.isOrdering = true)
    (hs : Moment.looksLikeDate (Text.trim s) = true) :
    TextMeans (c.symbol ++ s) (.compare c) (.text (Text.trim s))
  /-- Any other text. -/
  | itself {s : String} (hpart : ∀ r, s ≠ "~" ++ r) (hescaped : ∀ r, s ≠ "\\~" ++ r)
    (hdate : ∀ (c : Comparison) (r : String), c.isOrdering = true → s = c.symbol ++ r →
      Moment.looksLikeDate (Text.trim r) = false) :
    TextMeans s (.compare .equal) (.text s)

theorem textClause_part (field s : String) :
    textClause field ("~" ++ s) = .plain field .contains (.text s) := by
  unfold textClause
  rw [String.toList_append]
  show Clause.contains field (.text (.ofList s.toList)) = _
  rw [String.ofList_toList]
  rfl

theorem textClause_escaped (field s : String) :
    textClause field ("\\~" ++ s) = .plain field (.compare .equal) (.text ("~" ++ s)) := by
  unfold textClause
  rw [String.toList_append]
  show Clause.equalTo field (.text (.ofList ('~' :: s.toList))) = _
  rw [← String.ofList_toList (s := "~" ++ s), String.toList_append]
  rfl

/-- No date begins with an equals sign. -/
theorem looksLikeDate_equals_sign (s : List Char) :
    Moment.looksLikeDate (Text.trim (.ofList ('=' :: s))) = false := by
  have htrim : ∀ r, ∃ r', Text.trim (.ofList ('=' :: r)) = .ofList ('=' :: r') := fun r =>
    ⟨Text.dropBlanksEnd r, by
      rw [Text.trim, String.toList_ofList, Text.trimList_cons (by decide)]⟩
  obtain ⟨r, hr⟩ := htrim s
  obtain ⟨r', hr'⟩ := htrim r
  have hlower : (Text.lowercase (.ofList ('=' :: r'))).toList = '=' :: Text.lowerFrom ['='] r' := by
    rw [Text.lowercase, String.toList_ofList, String.toList_ofList]
    rfl
  -- The equals sign stays in front; no word, span or date begins with it.
  have hword : ∀ w : String, w.toList.head? ≠ some '=' →
      (Text.lowercase (.ofList ('=' :: r')) == w) = false := by
    intro w hw
    rw [beq_eq_false_iff_ne]
    rintro rfl
    rw [hlower] at hw
    exact hw rfl
  unfold Moment.looksLikeDate
  rw [hr, hr']
  dsimp only
  rw [hword "today" (by decide), hword "yesterday" (by decide), hlower]
  have hspan : Moment.relative? ('=' :: Text.lowerFrom ['='] r') = none := by
    unfold Moment.relative?
    rw [List.dropWhile_cons_of_neg (by decide), List.takeWhile_cons_of_neg (by decide)]
    cases Text.lowerFrom ['='] r' <;> rfl
  have hdate : Moment.startsLikeDate ('=' :: Text.lowerFrom ['='] r') = false := by
    unfold Moment.startsLikeDate
    split
    · next heq =>
      obtain ⟨rfl, -⟩ := List.cons.inj heq
      rfl
    · rfl
  rw [hspan, hdate]
  rfl

/-- The first mark of a text is the longest one, and it is the one that stands before a date. -/
theorem firstMark?_symbol {c : Comparison} (hc : c.isOrdering = true) {s : String}
    (hs : Moment.looksLikeDate (Text.trim s) = true) :
    firstMark? (c.symbol ++ s).toList = some (c, s.toList) := by
  have hsign : ∀ r, s.toList ≠ '=' :: r := by
    intro r hr
    have hlooks := looksLikeDate_equals_sign r
    rw [← hr, String.ofList_toList, hs] at hlooks
    exact Bool.noConfusion hlooks
  -- A longer mark would have taken the equals sign away from the date.
  have hafter : after? ['='] s.toList = none := by
    cases hlist : s.toList with
    | nil => rfl
    | cons d r =>
      have hd : ¬ '=' = d := fun h => hsign r (by rw [hlist, h])
      exact if_neg hd
  rw [String.toList_append]
  cases c with
  | equal => exact absurd hc (by decide)
  | notEqual => exact absurd hc (by decide)
  | atLeast => rfl
  | atMost => rfl
  | greater =>
    show firstMark? ('>' :: s.toList) = _
    simp [firstMark?, dateMarks, after?, hafter]
  | less =>
    show firstMark? ('<' :: s.toList) = _
    simp [firstMark?, dateMarks, after?, hafter]

theorem dateClause?_of_mark {field : String} {s r : List Char} {c : Comparison}
    (h : firstMark? s = some (c, r)) :
    dateClause? field s =
      if Moment.looksLikeDate (Text.trim (.ofList r)) = true then
        some (.plain field (.compare c) (.text (Text.trim (.ofList r))))
      else none := by
  unfold dateClause?
  rw [h, Option.bind_eq_bind, Option.bind_some]

theorem textClause_date (field : String) {c : Comparison} (hc : c.isOrdering = true) {s : String}
    (hs : Moment.looksLikeDate (Text.trim s) = true) :
    textClause field (c.symbol ++ s) = .plain field (.compare c) (.text (Text.trim s)) := by
  have hdate : dateClause? field (c.symbol ++ s).toList
      = some (.plain field (.compare c) (.text (Text.trim s))) := by
    rw [dateClause?_of_mark (firstMark?_symbol hc hs), String.ofList_toList, if_pos hs]
  -- The marks for a part and for an escaped text are tried first.
  obtain ⟨d, r, hsymbol, hfirst⟩ : ∃ d r, (c.symbol ++ s).toList = d :: r ∧ d ≠ '\\' ∧ d ≠ '~' := by
    rw [String.toList_append]
    cases c <;> exact ⟨_, _, rfl, by decide⟩
  unfold textClause
  split
  · next heq =>
    rw [hsymbol] at heq
    exact absurd (List.cons.inj heq).1 hfirst.1
  · next heq =>
    rw [hsymbol] at heq
    exact absurd (List.cons.inj heq).1 hfirst.2
  · rw [hdate]
    rfl

theorem after?_eq_some_iff {mark s r : List Char} : after? mark s = some r ↔ s = mark ++ r := by
  induction mark generalizing s with
  | nil => exact Option.some_inj.trans Iff.rfl
  | cons c mark ih =>
    cases s with
    | nil => exact ⟨fun h => absurd h (by rintro ⟨⟩), fun h => absurd h (by simp)⟩
    | cons d s =>
      rw [after?]
      by_cases hcd : c = d
      · rw [if_pos hcd, ih, hcd, List.cons_append, List.cons_inj_right]
      · rw [if_neg hcd, List.cons_append]
        exact ⟨fun h => absurd h (by rintro ⟨⟩), fun h => absurd (List.cons.inj h).1.symm hcd⟩

/-- A mark is the symbol of an ordering comparison. -/
theorem firstMark?_eq_some {s : List Char} {c : Comparison} {r : List Char}
    (h : firstMark? s = some (c, r)) : c.isOrdering = true ∧ s = c.symbol.toList ++ r := by
  obtain ⟨⟨mark, d⟩, hmem, hmark⟩ := List.exists_of_findSome?_eq_some h
  obtain ⟨rest, hrest, heq⟩ := Option.map_eq_some_iff.mp hmark
  obtain ⟨rfl, rfl⟩ := Prod.mk.inj heq
  rw [after?_eq_some_iff] at hrest
  have hmarks : ∀ m ∈ dateMarks, m.2.isOrdering = true ∧ m.1 = m.2.symbol.toList := by decide
  obtain ⟨hd, hsymbol⟩ := hmarks _ hmem
  exact ⟨hd, by rw [hrest, ← hsymbol]⟩

theorem textClause_itself (field : String) {s : String} (hpart : ∀ r, s ≠ "~" ++ r)
    (hescaped : ∀ r, s ≠ "\\~" ++ r)
    (hdate : ∀ (c : Comparison) (r : String), c.isOrdering = true → s = c.symbol ++ r →
      Moment.looksLikeDate (Text.trim r) = false) :
    textClause field s = .plain field (.compare .equal) (.text s) := by
  have hnone : dateClause? field s.toList = none := by
    cases hmark : firstMark? s.toList with
    | none =>
      unfold dateClause?
      rw [hmark]
      rfl
    | some m =>
      obtain ⟨hc, hs⟩ := firstMark?_eq_some hmark
      have hlooks := hdate m.1 (.ofList m.2) hc
        (by rw [← String.toList_inj, String.toList_append, String.toList_ofList, hs])
      rw [dateClause?_of_mark hmark, hlooks]
      exact if_neg Bool.false_ne_true
  unfold textClause
  split
  · next rest heq =>
    refine absurd ?_ (hescaped (.ofList rest))
    rw [← String.toList_inj, heq, String.toList_append, String.toList_ofList]
    simp
  · next rest heq =>
    refine absurd ?_ (hpart (.ofList rest))
    rw [← String.toList_inj, heq, String.toList_append, String.toList_ofList]
    simp
  · rw [hnone]
    rfl

theorem exists_textMeans (s : String) : ∃ op v, TextMeans s op v := by
  by_cases hpart : ∃ r, s = "~" ++ r
  · obtain ⟨r, rfl⟩ := hpart
    exact ⟨_, _, .part r⟩
  by_cases hescaped : ∃ r, s = "\\~" ++ r
  · obtain ⟨r, rfl⟩ := hescaped
    exact ⟨_, _, .escaped r⟩
  by_cases hdate : ∃ (c : Comparison) (r : String), c.isOrdering = true ∧ s = c.symbol ++ r
      ∧ Moment.looksLikeDate (Text.trim r) = true
  · obtain ⟨c, r, hc, rfl, hr⟩ := hdate
    exact ⟨_, _, .date hc hr⟩
  · refine ⟨_, _, .itself (not_exists.mp hpart) (not_exists.mp hescaped) fun c r hc hs => ?_⟩
    exact Bool.eq_false_iff.mpr fun hr => hdate ⟨c, r, hc, hs, hr⟩

/-- A text means one thing, and that is its clause. -/
theorem textMeans_iff (field : String) {s : String} {op : Operator} {v : Operand} :
    TextMeans s op v ↔ textClause field s = .plain field op v := by
  have hof : ∀ {s op v}, TextMeans s op v → textClause field s = .plain field op v := by
    intro s op v h
    cases h with
    | part s => exact textClause_part field s
    | escaped s => exact textClause_escaped field s
    | date hc hs => exact textClause_date field hc hs
    | itself hpart hescaped hdate => exact textClause_itself field hpart hescaped hdate
  refine ⟨hof, fun h => ?_⟩
  obtain ⟨op', v', hmeans⟩ := exists_textMeans s
  obtain ⟨-, rfl, rfl, -⟩ := Clause.mk.inj ((hof hmeans).symm.trans h)
  exact hmeans

/-! ### Operators -/

/-- The words and symbols of operators. -/
def operatorWords : List (String × Operator) :=
  [("eq", .compare .equal), ("=", .compare .equal), ("==", .compare .equal),
    ("neq", .compare .notEqual), ("ne", .compare .notEqual), ("!=", .compare .notEqual),
    ("<>", .compare .notEqual), ("gt", .compare .greater), (">", .compare .greater),
    ("gte", .compare .atLeast), (">=", .compare .atLeast), ("lt", .compare .less),
    ("<", .compare .less), ("lte", .compare .atMost), ("<=", .compare .atMost),
    ("contains", .contains), ("~", .contains), ("exists", .present), ("is_empty", .missing),
    ("is empty", .missing)]

/-- The operator of a key: a word for dates, or a word or symbol in any letter case. -/
def wordMeaning? (key : String) : Option Operator :=
  if key = "after" then some (.compare .greater)
  else if key = "before" then some (.compare .less)
  else operatorWords.lookup (Operator.keyOf key)

theorem lookup_operatorWords {word : String} {op : Operator}
    (h : Operator.ofKey? word = some op) : operatorWords.lookup word = some op := by
  unfold Operator.ofKey? at h
  split at h <;> first | exact h | exact absurd h (by rintro ⟨⟩)

theorem wordMeaning?_of_operatorOfKey {key : String} {op : Operator}
    (h : operatorOfKey key = .ok op) : wordMeaning? key = some op := by
  unfold operatorOfKey at h
  unfold wordMeaning?
  split at h
  · rw [if_pos rfl, Except.ok.inj h]
  · rw [if_neg (by decide), if_pos rfl, Except.ok.inj h]
  · next hafter hbefore =>
    rw [if_neg hafter, if_neg hbefore]
    cases hword : Operator.ofText? key with
    | none =>
      rw [hword] at h
      exact absurd h (by rintro ⟨⟩)
    | some op' =>
      rw [hword] at h
      obtain rfl := Except.ok.inj h
      exact lookup_operatorWords hword

example : ["eq", "neq", "contains", "gt", "gte", "lt", "lte", "after", "before"].map wordMeaning?
    = [some (.compare .equal), some (.compare .notEqual), some .contains,
      some (.compare .greater), some (.compare .atLeast), some (.compare .less),
      some (.compare .atMost), some (.compare .greater), some (.compare .less)] := by
  decide +kernel

variable (t : ClauseTruth) (field : String)

/-- The truth of one operator with a value that is no object. Presence and absence take a flag, and
`false` asks for the opposite. -/
def operatorTruthOf (key : String) (v : Operand) : Option Bool :=
  match key, v with
  | "exists", .bool b => t field (if b then .present else .missing) (.bool true)
  | "is_empty", .bool b => t field (if b then .missing else .present) (.bool true)
  | key, v => (wordMeaning? key).bind fun op => t field op v

mutual

/-- The truth of an operator object: that all of its operators hold. -/
def operatorsTruth : List (String × Json) → Option Bool
  | [] => some true
  | (key, value) :: rest =>
    Connective.all.combine (operatorTruth key value) (operatorsTruth rest)

/-- The truth of one operator; `not` negates the operators inside it. -/
def operatorTruth (key : String) : Json → Option Bool
  | .object members => if key = "not" then (operatorsTruth members).map (!·) else none
  | j => (scalar? j).bind (operatorTruthOf t field key)

end

theorem truthBy_negateAll (es : List Entry) :
    (negateAll es).truthBy t = (Connective.all.fold (Entry.truthsBy t es)).map (!·) := by
  match es with
  | [] => rfl
  | [e] =>
    show e.negate.truthBy t = _
    rw [Entry.truthBy_negate, Entry.truthsBy, Entry.truthsBy, Connective.fold_singleton]
  | _ :: _ :: _ => rfl

variable {t field}

theorem eq_clause_of_flagClause {key : String} {whenTrue whenFalse : Clause} {j : Json} {e : Entry}
    (h : flagClause field key whenTrue whenFalse j = .ok e) :
    ∃ b, scalar? j = some (.bool b) ∧ e = .clause (if b then whenTrue else whenFalse) := by
  unfold flagClause at h
  split at h
  · exact ⟨true, rfl, (Except.ok.inj h).symm⟩
  · exact ⟨false, rfl, (Except.ok.inj h).symm⟩
  · exact absurd h (by rintro ⟨⟩)

theorem operatorTruth_of_scalar {key : String} {j : Json} {v : Operand} (h : scalar? j = some v) :
    operatorTruth t field key j = operatorTruthOf t field key v := by
  cases j with
  | object members => exact absurd h (by rintro ⟨⟩)
  | _ =>
    unfold operatorTruth
    rw [h, Option.bind_some]

/-- The clause of an operator has the truth of the operator. -/
theorem truthBy_of_operatorClause {key : String} {j : Json} {e : Entry}
    (h : operatorClause field key j = .ok e) :
    e.truthBy t = operatorTruth t field key j ∧ e.isFull = true := by
  unfold operatorClause at h
  split at h
  · obtain ⟨b, hb, rfl⟩ := eq_clause_of_flagClause h
    rw [operatorTruth_of_scalar hb]
    cases b <;> exact ⟨rfl, rfl⟩
  · obtain ⟨b, hb, rfl⟩ := eq_clause_of_flagClause h
    rw [operatorTruth_of_scalar hb]
    cases b <;> exact ⟨rfl, rfl⟩
  · next hexists hempty =>
    obtain ⟨op, hop, h⟩ := bind_eq_ok_iff.mp h
    cases hv : scalar? j with
    | none =>
      rw [hv] at h
      exact absurd h (by rintro ⟨⟩)
    | some v =>
      rw [hv] at h
      obtain rfl := Except.ok.inj h
      have hplain : operatorTruthOf t field key v = t field op v := by
        unfold operatorTruthOf
        split
        · exact absurd rfl hexists
        · exact absurd rfl hempty
        · rw [wordMeaning?_of_operatorOfKey hop, Option.bind_some]
      rw [operatorTruth_of_scalar hv, hplain]
      exact ⟨rfl, rfl⟩

theorem operatorEntries_cons_eq_ok_iff {key : String} {value : Json}
    {rest : List (String × Json)} {es : List Entry} :
    operatorEntries field ((key, value) :: rest) = .ok es ↔ ∃ e later,
      (if key = "not" then notEntry field value else operatorClause field key value) = .ok e
        ∧ operatorEntries field rest = .ok later ∧ es = e :: later := by
  have hpure : ∀ later e, pure (e :: later) = (.ok es : Except QueryError _) ↔ es = e :: later :=
    fun later e => ⟨fun h => (Except.ok.inj h).symm, fun h => congrArg Except.ok h.symm⟩
  rw [operatorEntries]
  by_cases hkey : key = "not"
  · simp only [if_pos hkey, bind_eq_ok_iff, hpure, exists_and_left]
  · simp only [if_neg hkey, bind_eq_ok_iff, hpure, exists_and_left]

mutual

/-- The trees of an operator object are all true together as the object says. -/
theorem truthsBy_of_operatorEntries : ∀ {members : List (String × Json)} {es : List Entry},
    operatorEntries field members = .ok es →
      Connective.all.fold (Entry.truthsBy t es) = operatorsTruth t field members
  | [], es, h => by
    obtain rfl := Except.ok.inj h
    rfl
  | (key, value) :: rest, es, h => by
    obtain ⟨e, later, he, hlater, rfl⟩ := operatorEntries_cons_eq_ok_iff.mp h
    have hhead : e.truthBy t = operatorTruth t field key value := by
      by_cases hkey : key = "not"
      · subst hkey
        rw [if_pos rfl] at he
        exact truthBy_of_notEntry he
      · rw [if_neg hkey] at he
        exact (truthBy_of_operatorClause he).1
    rw [Entry.truthsBy, Connective.fold_cons, truthsBy_of_operatorEntries hlater, hhead,
      operatorsTruth]

theorem truthBy_of_notEntry : ∀ {j : Json} {e : Entry}, notEntry field j = .ok e →
    e.truthBy t = operatorTruth t field "not" j
  | .object members, e, h => by
    rw [notEntry] at h
    obtain ⟨es, hes, hpure⟩ := bind_eq_ok_iff.mp h
    obtain rfl := Except.ok.inj hpure
    rw [truthBy_negateAll, truthsBy_of_operatorEntries hes, operatorTruth, if_pos rfl]
  | .null, e, h | .bool _, e, h | .number _, e, h | .text _, e, h | .array _, e, h
  | .unreadable, e, h => by exact absurd h (by rintro ⟨⟩)

end

/-! ### Fields -/

variable (t field)

/-- Whether a field equals a text, a number or a truth value. -/
def Equals (j : Json) : Prop := ∃ v, scalar? j = some v ∧ t field (.compare .equal) v = some true

/-- Whether a field is as a value asks. -/
def FieldHolds : Json → Prop
  | .array items => ∃ j ∈ items, Equals t field j
  | .object members => operatorsTruth t field members = some true
  | .text s => ∃ op v, TextMeans s op v ∧ t field op v = some true
  | .null | .unreadable => t field .missing (.bool true) = some true
  | j => Equals t field j

variable {t field}

theorem exists_of_itemEntries {items : List Json} {es : List Entry}
    (h : itemEntries field items = .ok es) :
    (∃ e ∈ es, e.truthBy t = some true) ↔ ∃ j ∈ items, Equals t field j := by
  induction items generalizing es with
  | nil =>
    obtain rfl := Except.ok.inj h
    exact ⟨fun ⟨e, he, _⟩ => absurd he List.not_mem_nil,
      fun ⟨j, hj, _⟩ => absurd hj List.not_mem_nil⟩
  | cons j rest ih =>
    rw [itemEntries] at h
    cases hv : scalar? j with
    | none =>
      rw [hv] at h
      exact absurd h (by rintro ⟨⟩)
    | some v =>
      rw [hv] at h
      obtain ⟨later, hlater, hpure⟩ := bind_eq_ok_iff.mp h
      obtain rfl := Except.ok.inj hpure
      have hhead : Equals t field j ↔ t field (.compare .equal) v = some true := by
        unfold Equals
        rw [hv]
        exact ⟨fun ⟨w, hw, hholds⟩ => Option.some.inj hw ▸ hholds, fun hholds => ⟨v, rfl, hholds⟩⟩
      rw [List.exists_mem_cons_iff, List.exists_mem_cons_iff, ih hlater, hhead]
      exact Iff.rfl

theorem allTrue_equalTo_iff {j : Json} {v : Operand} (hv : scalar? j = some v) :
    Entry.AllTrue t [.clause (.equalTo field v)] ↔ Equals t field j := by
  rw [Entry.allTrue_singleton_iff]
  unfold Equals
  rw [hv]
  exact ⟨fun h => ⟨v, rfl, h⟩, fun ⟨w, hw, h⟩ => Option.some.inj hw ▸ h⟩

theorem exists_scalar?_number (n : JsonNumber) : ∃ v, Operand.ofJson? (.number n) = some v := by
  cases n <;> exact ⟨_, rfl⟩

/-- The trees of a field are true together if the field is as its value asks. -/
theorem allTrue_of_fieldEntries {j : Json} {es : List Entry} (h : fieldEntries field j = .ok es) :
    Entry.AllTrue t es ↔ FieldHolds t field j := by
  cases j with
  | array items =>
    obtain ⟨fs, hfs, hpure⟩ := bind_eq_ok_iff.mp h
    obtain rfl := Except.ok.inj hpure
    rw [Entry.allTrue_singleton_iff, Entry.truthBy_any_iff, exists_of_itemEntries hfs]
    exact Iff.rfl
  | object members =>
    have hes : operatorEntries field members = .ok es := h
    rw [← Entry.truthBy_all_iff]
    show Connective.all.fold (Entry.truthsBy t es) = some true ↔ _
    rw [truthsBy_of_operatorEntries hes]
    exact Iff.rfl
  | text s =>
    obtain rfl := Except.ok.inj h
    rw [Entry.allTrue_singleton_iff]
    have hclause : ∀ op v, TextMeans s op v →
        ((Entry.clause (textClause field s)).truthBy t = some true ↔ t field op v = some true) := by
      intro op v hmeans
      rw [(textMeans_iff field).mp hmeans, Entry.truthBy_plain]
    obtain ⟨op, v, hmeans⟩ := exists_textMeans s
    constructor
    · exact fun htrue => ⟨op, v, hmeans, (hclause op v hmeans).mp htrue⟩
    · rintro ⟨op', v', hmeans', htrue⟩
      exact (hclause op' v' hmeans').mpr htrue
  | bool b =>
    obtain rfl := Except.ok.inj h
    exact allTrue_equalTo_iff rfl
  | number n =>
    obtain rfl := Except.ok.inj h
    obtain ⟨v, hv⟩ := exists_scalar?_number n
    rw [hv]
    exact allTrue_equalTo_iff hv
  | null =>
    obtain rfl := Except.ok.inj h
    exact Entry.allTrue_singleton_iff t
  | unreadable =>
    obtain rfl := Except.ok.inj h
    exact Entry.allTrue_singleton_iff t

end Shorthand

end GraphIndex
