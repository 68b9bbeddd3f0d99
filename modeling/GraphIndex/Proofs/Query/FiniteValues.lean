import GraphIndex.Proofs.Query.Language.Decimals
import GraphIndex.Proofs.Query.Language.Values
import GraphIndex.Proofs.Query.ReadBack

/-!
# Finite values

Of all the values of a query text only a decimal may fail to be finite, and it does if it overflows
(`Query.values_of_ofText`). JSON spells such a double as null, which is no value of a condition: the
query that holds it is written, but it is not read back. Any other query is, with doubles as the
reader takes them (`Query.ofJsonText_write_reread`).
-/

namespace GraphIndex

/-- Whether a value is finite; only a double may be infinite or a NaN. -/
def Operand.isFinite : Operand → Bool
  | .real x => x.isFinite
  | _ => true

/-- Whether all values of a list of trees are finite. -/
def Entry.AllFinite (es : List Entry) : Prop := ∀ c ∈ allClauses es, c.value.isFinite = true

/-! ### What is read back -/

/-- A value as its JSON text is read: a double may come back as another one. -/
def Operand.reread : Operand → Operand
  | .real x => .real x.reread
  | v => v

def Clause.reread (c : Clause) : Clause := { c with value := c.value.reread }

namespace Entry

mutual

def reread : Entry → Entry
  | clause c => clause c.reread
  | group kind members negated => group kind (allReread members) negated

def allReread : List Entry → List Entry
  | [] => []
  | e :: rest => e.reread :: allReread rest

end

theorem allReread_eq_map (es : List Entry) : allReread es = es.map reread := by
  induction es with
  | nil => rfl
  | cons e es ih => rw [allReread, ih, List.map_cons]

end Entry

/-- A query as its JSON text is read. -/
def Query.reread (q : Query) : Query := { q with conditions := Entry.allReread q.conditions }

theorem Operand.reread_eq {v : Operand} (h : v.ReadsBack) : v.reread = v := by
  cases v with
  | real x => rw [reread, Json.reread_of_readsBack h]
  | bool _ | integer _ | text _ => rfl

namespace Entry

theorem allReread_eq {es : List Entry}
    (he : ∀ e ∈ es, (∀ c ∈ e.clauses, c.value.ReadsBack) → e.reread = e)
    (h : ∀ c ∈ allClauses es, c.value.ReadsBack) : allReread es = es := by
  have hmap : es.map reread = es.map id :=
    List.map_congr_left fun e hmem => he e hmem (forall_mem_allClauses.mp h e hmem)
  rw [allReread_eq_map, hmap, List.map_id]

theorem reread_eq (e : Entry) : (∀ c ∈ e.clauses, c.value.ReadsBack) → e.reread = e := by
  induction e using Entry.induction with
  | clause c =>
    intro h
    rw [reread, Clause.reread, Operand.reread_eq (h c (List.mem_singleton_self c))]
  | group kind members negated ih =>
    intro h
    rw [reread, allReread_eq ih h]

end Entry

/-- Where every value reads back so does the query. -/
theorem Query.reread_eq {q : Query}
    (h : ∀ c ∈ Entry.allClauses q.conditions, c.value.ReadsBack) : q.reread = q := by
  rw [reread, Entry.allReread_eq (fun e _ => e.reread_eq) h]

/-! ### Values and conditions -/

theorem Operand.reread_toJson (v : Operand) :
    v.toJson.reread = if v.isFinite then v.reread.toJson else .null := by
  cases v <;> rfl

theorem membersReread_negationMember (negated : Bool) :
    Json.membersReread (negationMember negated) = negationMember negated := by
  cases negated <;> rfl

theorem Json.membersReread_append (ms ns : List (String × Json)) :
    membersReread (ms ++ ns) = membersReread ms ++ membersReread ns := by
  induction ms with
  | nil => rfl
  | cons m ms ih => rw [List.cons_append, membersReread, ih, membersReread, List.cons_append]

/-- What is read for a clause. -/
theorem Clause.reread_toJson (c : Clause) : c.toJson.reread =
    .object ([("field", .text c.field), ("operator", .text c.operator.symbol),
      ("value", c.value.toJson.reread)] ++ negationMember c.negated) := by
  rw [toJson, Json.reread, Json.membersReread_append, membersReread_negationMember]
  rfl

/-- A clause is not read with null for its value. -/
theorem Clause.ofJson?_reread {c : Clause} (h : c.value.isFinite = false) :
    ofJson? c.toJson.reread = none := by
  rw [reread_toJson, Operand.reread_toJson, h]
  cases c.negated <;> simp [negationMember, ofJson?, Json.unique?, ofFields?, Operand.ofMember?,
    Operand.ofJson?]

namespace Entry

theorem itemsReread_listToJson (es : List Entry) :
    Json.itemsReread (listToJson es) = es.map fun e => e.toJson.reread := by
  induction es with
  | nil => rfl
  | cons e es ih => rw [listToJson, Json.itemsReread, ih, List.map_cons]

/-- What is read for a group. -/
theorem reread_group (kind : Connective) (members : List Entry) (negated : Bool) :
    (group kind members negated).toJson.reread =
      .object ([("type", .text kind.name),
        ("clauses", .array (members.map fun e => e.toJson.reread))] ++ negationMember negated) := by
  rw [toJson, Json.reread, Json.membersReread_append, membersReread_negationMember,
    ← itemsReread_listToJson]
  rfl

/-- What is read for trees with finite values are the trees as they are read. -/
theorem map_reread {es : List Entry}
    (h : ∀ e ∈ es, (∀ c ∈ e.clauses, c.value.isFinite = true) → e.toJson.reread = e.reread.toJson)
    (hfinite : AllFinite es) : (es.map fun e => e.toJson.reread) = listToJson (allReread es) := by
  rw [listToJson_eq_map, allReread_eq_map, List.map_map]
  exact List.map_congr_left fun e he => h e he (forall_mem_allClauses.mp hfinite e he)

theorem reread_toJson (e : Entry) :
    (∀ c ∈ e.clauses, c.value.isFinite = true) → e.toJson.reread = e.reread.toJson := by
  induction e using Entry.induction with
  | clause c =>
    intro hfinite
    rw [toJson, Clause.reread_toJson, Operand.reread_toJson,
      if_pos (hfinite c (List.mem_singleton_self c))]
    rfl
  | group kind members negated ih =>
    intro hfinite
    rw [reread_group, map_reread ih hfinite]
    rfl

/-! ### What is refused -/

theorem ofJson?_reread_clause {c : Clause} (h : c.value.isFinite = false) :
    ofJson? (clause c).toJson.reread = none := by
  have hc := Clause.ofJson?_reread h
  rw [toJson]
  rw [Clause.reread_toJson] at hc ⊢
  rw [ofJson?, hc]
  cases c.negated <;> simp [negationMember, Json.unique?]

/-- One item that is not read spoils a list. -/
theorem ofItems?_eq_none {items : List Json} (h : ∃ j ∈ items, ofJson? j = none) :
    ofItems? items = none := by
  induction items with
  | nil => exact absurd h (by simp)
  | cons j rest ih =>
    rw [ofItems?]
    simp only [List.mem_cons, exists_eq_or_imp] at h
    rcases h with h | h
    · rw [h]
      rfl
    · rw [ih h]
      cases ofJson? j <;> rfl

theorem ofJson?_reread_group {kind : Connective} {members : List Entry} {negated : Bool}
    (h : ∃ e ∈ members, ofJson? e.toJson.reread = none) :
    ofJson? (group kind members negated).toJson.reread = none := by
  have hitems : ofItems? (members.map fun e => e.toJson.reread) = none :=
    ofItems?_eq_none (by simpa using h)
  rw [reread_group, ofJson?]
  cases negated <;> simp [negationMember, Json.unique?, membersOf?, listOf?, hitems, groupOf?,
    Clause.ofJson?]

/-- **A tree is not read** with null for one of its values. -/
theorem ofJson?_reread_eq_none (e : Entry) :
    (∃ c ∈ e.clauses, c.value.isFinite = false) → ofJson? e.toJson.reread = none := by
  induction e using Entry.induction with
  | clause c =>
    rintro ⟨d, hd, hinfinite⟩
    rw [List.mem_singleton.mp hd] at hinfinite
    exact ofJson?_reread_clause hinfinite
  | group kind members negated ih =>
    rintro ⟨c, hc, hinfinite⟩
    obtain ⟨e, he, hc⟩ := mem_allClauses.mp hc
    exact ofJson?_reread_group ⟨e, he, ih e he ⟨c, hc, hinfinite⟩⟩

theorem decode_of_readable {j : Json} (h : j.isReadable = true) :
    decode j = match ofJson? j with
      | some e => .ok e
      | none => .error (.noVariant "WhereEntry") := by
  unfold decode
  rw [h]
  rfl

/-- A list is refused for the first of its items that are not read. -/
theorem decodeList_eq_error {items : List Json} (hreadable : ∀ j ∈ items, j.isReadable = true)
    (h : ∃ j ∈ items, ofJson? j = none) :
    decodeList (.array items) = .error (.noVariant "WhereEntry") := by
  show Json.decodeItems decode items = _
  induction items with
  | nil => exact absurd h (by simp)
  | cons j rest ih =>
    rw [List.forall_mem_cons] at hreadable
    rw [Json.decodeItems, decode_of_readable hreadable.1]
    cases hread : ofJson? j with
    | none => rfl
    | some e =>
      simp only [List.mem_cons, exists_eq_or_imp, hread, reduceCtorEq, false_or] at h
      dsimp only
      rw [ih hreadable.2 h]
      rfl

end Entry

/-! ### Queries -/

namespace Query

variable {q : Query}

theorem reread_orderJson (order : Option SortKey) :
    (optionJson SortKey.toJson order).reread = optionJson SortKey.toJson order :=
  (readsBack_orderJson order).fits_and_reread.2

theorem reread_selectJson (select : Option (List String)) :
    (optionJson (fun names => .array (names.map .text)) select).reread
      = optionJson (fun names => .array (names.map .text)) select :=
  (readsBack_selectJson select).fits_and_reread.2

theorem fits_toJson (q : Query) : q.toJson.Fits :=
  ⟨trivial, Entry.itemsFit_listToJson q.conditions,
    (readsBack_orderJson q.orderBy).fits_and_reread.1,
    (readsBack_selectJson q.select).fits_and_reread.1, fitsInt64_toInt q.limit,
    fitsInt64_toInt q.offset, trivial⟩

/-- What is read for a query. -/
theorem reread_toJson (q : Query) : q.toJson.reread =
    .object [("find", .text q.find),
      ("where", .array (q.conditions.map fun e => e.toJson.reread)),
      ("orderBy", optionJson SortKey.toJson q.orderBy),
      ("select", optionJson (fun names => .array (names.map .text)) q.select),
      ("limit", .ofInt q.limit.toInt),
      ("offset", .ofInt q.offset.toInt)] := by
  unfold toJson
  simp only [Json.reread, Json.membersReread, reread_orderJson, reread_selectJson,
    Entry.itemsReread_listToJson]
  rfl

theorem decode_eq_error_of_conditions {find : String} {conditions : Json}
    {rest : List (String × Json)} {err : DecodeError}
    (h : Entry.decodeList conditions = .error err) :
    decode (.object (("find", .text find) :: ("where", conditions) :: rest)) = .error err := by
  unfold decode
  simp only [List.foldlM_cons, Draft.take, Json.decodeOnce, h]
  rfl

theorem decode_reread_eq_error (h : ¬ Entry.AllFinite q.conditions) :
    decode q.toJson.reread = .error (.noVariant "WhereEntry") := by
  rw [reread_toJson]
  apply decode_eq_error_of_conditions
  unfold Entry.AllFinite at h
  push Not at h
  obtain ⟨c, hc, hinfinite⟩ := h
  obtain ⟨e, he, hc⟩ := Entry.mem_allClauses.mp hc
  have hnone := Entry.ofJson?_reread_eq_none e ⟨c, hc, Bool.eq_false_of_not_eq_true hinfinite⟩
  refine Entry.decodeList_eq_error (fun j hj => ?_) ⟨_, List.mem_map_of_mem he, hnone⟩
  obtain ⟨e', -, rfl⟩ := List.mem_map.mp hj
  exact e'.fits_toJson.reread.isReadable

/-- **A query is read back from its text if its values are finite**, and else it is refused. -/
theorem ofJsonText_write_reread (q : Query) {depth : Nat} (hdepth : q.toJson.nesting ≤ depth) :
    (Entry.AllFinite q.conditions → ofJsonText depth q.toJson.write = .ok q.reread)
    ∧ (¬ Entry.AllFinite q.conditions →
      ofJsonText depth q.toJson.write = .error (.noVariant "WhereEntry")) := by
  unfold ofJsonText
  rw [Json.scanWithin_write_of_fits q.fits_toJson hdepth]
  dsimp only
  constructor
  · intro hfinite
    have hread : q.toJson.reread = q.reread.toJson := by
      rw [reread_toJson, Entry.map_reread (fun e _ => e.reread_toJson) hfinite]
      rfl
    rw [hread, decode_toJson]
    rfl
  · intro hinfinite
    rw [decode_reread_eq_error hinfinite]

/-! ### Query texts -/

open GraphIndex.Language

/-- A decimal that stands in a text as a bare value, and that is no integer of sixty-four bits. -/
structure IsBareIn (text : List Char) (d : Decimal) : Prop where
  isProper : d.IsProper
  int64?_eq_none : Numeral.int64? d.chars = none
  exists_rest : ∃ rest, d.chars ++ rest <:+ text ∧ ∀ c ∈ rest.head?, inValue c = false

variable {text : String}

/-- A double in a query comes from such a decimal. -/
theorem exists_decimal_of_ofText (h : ofText text = .ok q) {c : Clause}
    (hc : c ∈ Entry.allClauses q.conditions) {x : Binary64} (hx : c.value = .real x) :
    ∃ d : Decimal, IsBareIn text.toList d ∧ x = d.nearest := by
  have hread := readIn_of_ofText h c hc
  generalize c.value = v at hread hx
  cases hread with
  | unwritten => exact absurd hx (by rintro ⟨⟩)
  | quoted _ => exact absurd hx (by rintro ⟨⟩)
  | bare hne hin hends hsuffix =>
    obtain ⟨hint, d, hd, rfl, rfl⟩ := classify_eq_real_iff.mp hx
    exact ⟨d, ⟨hd, hint, _, hsuffix, hends⟩, rfl⟩

theorem allFinite_of_ofText (h : ofText text = .ok q)
    (hsmall : ∀ d : Decimal, IsBareIn text.toList d → d.magnitude < Binary64.overflow) :
    Entry.AllFinite q.conditions := by
  intro c hc
  cases hvalue : c.value with
  | real x =>
    obtain ⟨d, hd, rfl⟩ := exists_decimal_of_ofText h hc hvalue
    exact d.isFinite_nearest_iff.mpr (hsmall d hd)
  | bool _ | integer _ | text _ => rfl

/-- **The values of a query text** are finite up to decimals that overflow.

* Every value was read from the text, a bare one with all of its characters.
* A double is never a NaN. It is the one nearest to a decimal in the text, and it is finite if and
  only if that is below the overflow; with at most 308 digits before the point it is.
* If no decimal in the text overflows all values are finite.
* A bare value that is neither an integer nor a decimal stays a text.
* The JSON text of the query is read back if all its values are finite, and else it is refused. The
  query comes back as it was, but for doubles that the JSON reader takes for others. -/
theorem values_of_ofText (h : ofText text = .ok q) :
    (∀ c ∈ Entry.allClauses q.conditions, c.value.ReadIn text.toList)
    ∧ (∀ c ∈ Entry.allClauses q.conditions, ∀ x, c.value = .real x → x.isNaN = false
        ∧ ∃ d : Decimal, IsBareIn text.toList d ∧ x = d.nearest
          ∧ (x.isFinite = true ↔ d.magnitude < Binary64.overflow)
          ∧ (d.whole.length ≤ 308 → x.isFinite = true))
    ∧ ((∀ d : Decimal, IsBareIn text.toList d → d.magnitude < Binary64.overflow) →
        Entry.AllFinite q.conditions)
    ∧ (∀ token : List Char, Numeral.int64? token = none →
        (∀ d : Decimal, d.IsProper → d.chars ≠ token) → classify token = .text (.ofList token))
    ∧ (∀ depth, q.toJson.nesting ≤ depth →
        (Entry.AllFinite q.conditions → ofJsonText depth q.toJson.write = .ok q.reread)
        ∧ (¬ Entry.AllFinite q.conditions →
          ofJsonText depth q.toJson.write = .error (.noVariant "WhereEntry")))
    ∧ ((∀ c ∈ Entry.allClauses q.conditions, c.value.ReadsBack) → q.reread = q) := by
  refine ⟨readIn_of_ofText h, fun c hc x hx => ?_, allFinite_of_ofText h,
    fun token => classify_of_no_number, fun depth => q.ofJsonText_write_reread, reread_eq⟩
  obtain ⟨d, hd, rfl⟩ := exists_decimal_of_ofText h hc hx
  exact ⟨d.isNaN_nearest, d, hd, rfl, d.isFinite_nearest_iff,
    fun hwhole => d.isFinite_nearest_iff.mpr (hd.isProper.magnitude_lt_overflow hwhole)⟩

/-- Whether a text without blanks at its ends denotes a query with these conditions. -/
def denotes (s : List Char) (cs : List Clause) : Bool :=
  match query s with
  | .ok (q, []) =>
    decide (Entry.allClauses q.conditions = cs ∧ q.toJson.nesting ≤ Json.depthLimit)
  | _ => false

theorem exists_of_denotes {s : List Char} (cs : List Clause)
    (htext : text.toList = s) (htrim : Text.trimList s = s) (h : denotes s cs = true) :
    ∃ q, ofText text = .ok q ∧ Entry.allClauses q.conditions = cs
      ∧ q.toJson.nesting ≤ Json.depthLimit := by
  unfold denotes at h
  split at h
  · next q hquery =>
    refine ⟨q, ?_, of_decide_eq_true h⟩
    unfold ofText
    rw [htext, htrim, hquery]
    rfl
  · exact absurd h Bool.false_ne_true

end Query

/-- A comparison with a decimal and one with a name that no number has. -/
def pointsText : String := "find task where Points > 2.5 and Points != NaN"

def pointsClauses : List Clause :=
  [.plain "Points" (.compare .greater) (.real ⟨0x4004000000000000⟩),
    .plain "Points" (.compare .notEqual) (.text "NaN")]

/-- The decimal becomes a double, the name stays a text, and the query reads back. -/
theorem values_of_ofText_points : ∃ q, Query.ofText pointsText = .ok q
    ∧ Entry.allClauses q.conditions = pointsClauses
    ∧ (∃ d : Language.Decimal, Query.IsBareIn pointsText.toList d
      ∧ ⟨0x4004000000000000⟩ = d.nearest)
    ∧ Language.classify "NaN".toList = .text "NaN"
    ∧ Query.ofJsonText Json.depthLimit q.toJson.write = .ok q := by
  have htext : Text.trimList pointsText.toList = pointsText.toList := by decide +kernel
  obtain ⟨q, hq, hclauses, hdepth⟩ :=
    Query.exists_of_denotes pointsClauses rfl htext (by decide +kernel)
  obtain ⟨-, hreals, -, htexts, hjson, hexact⟩ := Query.values_of_ofText hq
  have hfinite : Entry.AllFinite q.conditions := by
    intro c hc
    rw [hclauses, pointsClauses, List.mem_pair] at hc
    rcases hc with rfl | rfl <;> decide +kernel
  have hreads : ∀ c ∈ Entry.allClauses q.conditions, c.value.ReadsBack := by
    intro c hc
    rw [hclauses, pointsClauses, List.mem_pair] at hc
    rcases hc with rfl | rfl
    · exact ⟨by decide +kernel, by decide +kernel⟩
    · trivial
  have hread := (hjson _ hdepth).1 hfinite
  rw [hexact hreads] at hread
  have hmem : Clause.plain "Points" (.compare .greater) (.real ⟨0x4004000000000000⟩)
      ∈ Entry.allClauses q.conditions := by
    rw [hclauses]
    exact List.mem_cons_self
  refine ⟨q, hq, hclauses, ?_, htexts _ (by decide) fun d hd hchars => ?_, hread⟩
  · obtain ⟨-, d, hd, hx, -⟩ := hreals _ hmem _ rfl
    exact ⟨d, hd, hx⟩
  · exact absurd (hd.inDouble_chars 'N' (hchars ▸ by decide)) (by decide)

/-- A number of three hundred and ten digits. -/
def longText : String := .ofList ("find * where a = 1".toList ++ List.replicate 309 '0')

/-- It becomes an infinity, which JSON does not have. -/
theorem not_allFinite_of_ofText_long : ∃ q, Query.ofText longText = .ok q
    ∧ Entry.allClauses q.conditions = [.equalTo "a" (.real (.infinity false))]
    ∧ ¬ Entry.AllFinite q.conditions
    ∧ Query.ofJsonText Json.depthLimit q.toJson.write = .error (.noVariant "WhereEntry") := by
  have htext : longText.toList = "find * where a = 1".toList ++ List.replicate 309 '0' :=
    String.toList_ofList
  obtain ⟨q, hq, hclauses, hdepth⟩ := Query.exists_of_denotes
    [.equalTo "a" (.real (.infinity false))] htext (by decide +kernel) (by decide +kernel)
  have hinfinite : ¬ Entry.AllFinite q.conditions := by
    intro hfinite
    have hc := hfinite (.equalTo "a" (.real (.infinity false))) (hclauses ▸ List.mem_cons_self)
    exact absurd hc (by decide +kernel)
  exact ⟨q, hq, hclauses, hinfinite, (q.ofJsonText_write_reread hdepth).2 hinfinite⟩

end GraphIndex
