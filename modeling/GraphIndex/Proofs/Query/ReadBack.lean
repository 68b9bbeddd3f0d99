import GraphIndex.Proofs.Json.Values
import GraphIndex.Proofs.Plan.Selections
import GraphIndex.Query.Decode
import GraphIndex.Query.Encode

/-!
# Queries and aggregations read back from JSON

The JSON text of a query or an aggregation is read as what was written
(`readBack_of_write`). Numbers keep their kind, groups and clauses are told apart
at every depth, and so are the kinds of dimensions; what is left out or null comes back.
Of doubles it is asked that each is finite and reads back from its own text.
-/

namespace GraphIndex

/-! ### Values and operators -/

/-- Whether a value reads back: a double does if it is finite and its text denotes it. -/
def Operand.ReadsBack : Operand → Prop
  | .real x => (JsonNumber.real x).ReadsBack
  | _ => True

theorem Operand.ofJson?_toJson (v : Operand) : ofJson? v.toJson = some v := by
  cases v with
  | bool b => rfl
  | integer i =>
    show some (if fitsInt64 i.toInt then integer (.ofInt i.toInt) else _) = _
    rw [if_pos (fitsInt64_toInt i), Int64.ofInt_toInt]
  | real x => rfl
  | text s => rfl

theorem Operand.readsBack_toJson {v : Operand} (h : v.ReadsBack) : v.toJson.ReadsBack := by
  cases v with
  | bool b => trivial
  | integer i => exact fitsInt64_toInt i
  | real x => exact h
  | text s => trivial

/-- The symbol of an operator is one of its spellings. -/
theorem Operator.ofText?_symbol (op : Operator) : ofText? op.symbol = some op := by
  have hkey : keyOf op.symbol = op.symbol := by
    cases op with
    | compare c => cases c <;> decide +kernel
    | contains => decide +kernel
    | present => decide +kernel
    | missing => decide +kernel
  rw [ofText?, hkey, ofKey?_symbol]

theorem Connective.ofJson?_name (kind : Connective) : ofJson? (.text kind.name) = some kind := by
  cases kind <;> rfl

/-! ### Conditions -/

theorem Clause.ofJson?_toJson (c : Clause) : ofJson? c.toJson = some c := by
  obtain ⟨field, op, v, negated⟩ := c
  have hop : Operator.ofJson? (.text op.symbol) = some op := Operator.ofText?_symbol op
  have hv : Operand.ofMember? (some v.toJson) = some v := v.ofJson?_toJson
  cases negated <;>
    simp [toJson, negationMember, ofJson?, Json.unique?, ofFields?, hop, hv, Json.flag?]

namespace Entry

/-- A clause has no type, so it cannot be read as a group. -/
theorem ofJson?_clause (c : Clause) : ofJson? (clause c).toJson = some (clause c) := by
  have hc := c.ofJson?_toJson
  rw [toJson]
  unfold Clause.toJson at hc ⊢
  rw [ofJson?, hc]
  cases c.negated <;> simp [negationMember, Json.unique?]

theorem ofJson?_group {kind : Connective} {members : List Entry} {negated : Bool}
    (h : ofItems? (listToJson members) = some members) :
    ofJson? (group kind members negated).toJson = some (group kind members negated) := by
  have hkind := Connective.ofJson?_name kind
  rw [toJson, ofJson?]
  cases negated <;>
    simp [negationMember, Json.unique?, membersOf?, listOf?, h, groupOf?, hkind, Json.flag?]

mutual

/-- Conditions read back. -/
theorem ofJson?_toJson : ∀ e : Entry, ofJson? e.toJson = some e
  | clause c => ofJson?_clause c
  | group _ members _ => ofJson?_group (ofItems?_listToJson members)

theorem ofItems?_listToJson : ∀ es : List Entry, ofItems? (listToJson es) = some es
  | [] => rfl
  | e :: es => by
    rw [listToJson, ofItems?, ofJson?_toJson e, ofItems?_listToJson es]
    rfl

end

mutual

/-- Whether every value of a tree reads back. -/
def ReadsBack : Entry → Prop
  | clause c => c.value.ReadsBack
  | group _ members _ => AllReadBack members

def AllReadBack : List Entry → Prop
  | [] => True
  | e :: rest => e.ReadsBack ∧ AllReadBack rest

end

end Entry

theorem membersFit_negationMember (negated : Bool) :
    Json.MembersFit (negationMember negated) := by
  cases negated
  · trivial
  · exact ⟨trivial, trivial⟩

theorem Json.membersFit_append {ms ns : List (String × Json)} (h : MembersFit ms)
    (h' : MembersFit ns) : MembersFit (ms ++ ns) := by
  induction ms with
  | nil => exact h'
  | cons m ms ih => exact ⟨h.1, ih h.2⟩

theorem Operand.fits_toJson (v : Operand) : v.toJson.Fits := by
  cases v with
  | integer i => exact fitsInt64_toInt i
  | bool _ | real _ | text _ => trivial

namespace Entry

mutual

/-- Conditions are read, whatever their values. -/
theorem fits_toJson : ∀ e : Entry, e.toJson.Fits
  | clause c => by
    have hmembers : Json.MembersFit [("field", .text c.field),
        ("operator", .text c.operator.symbol), ("value", c.value.toJson)] :=
      ⟨trivial, trivial, c.value.fits_toJson, trivial⟩
    exact Json.membersFit_append hmembers (membersFit_negationMember c.negated)
  | group kind members negated => by
    have hmembers : Json.MembersFit [("type", .text kind.name),
        ("clauses", .array (listToJson members))] := ⟨trivial, itemsFit_listToJson members, trivial⟩
    exact Json.membersFit_append hmembers (membersFit_negationMember negated)

theorem itemsFit_listToJson : ∀ es : List Entry, Json.ItemsFit (listToJson es)
  | [] => trivial
  | e :: es => ⟨fits_toJson e, itemsFit_listToJson es⟩

end

end Entry

theorem membersReadBack_negationMember (negated : Bool) :
    Json.MembersReadBack (negationMember negated) := by
  cases negated
  · trivial
  · exact ⟨trivial, trivial⟩

theorem Json.membersReadBack_append {ms ns : List (String × Json)} (h : MembersReadBack ms)
    (h' : MembersReadBack ns) : MembersReadBack (ms ++ ns) := by
  induction ms with
  | nil => exact h'
  | cons m ms ih => exact ⟨h.1, ih h.2⟩

namespace Entry

mutual

theorem readsBack_toJson : ∀ {e : Entry}, e.ReadsBack → e.toJson.ReadsBack
  | clause c, h => by
    have hmembers : Json.MembersReadBack [("field", .text c.field),
        ("operator", .text c.operator.symbol), ("value", c.value.toJson)] :=
      ⟨trivial, trivial, Operand.readsBack_toJson h, trivial⟩
    exact Json.membersReadBack_append hmembers (membersReadBack_negationMember c.negated)
  | group kind members negated, h => by
    have hmembers : Json.MembersReadBack [("type", .text kind.name),
        ("clauses", .array (listToJson members))] := ⟨trivial, itemsReadBack_listToJson h, trivial⟩
    exact Json.membersReadBack_append hmembers (membersReadBack_negationMember negated)

theorem itemsReadBack_listToJson : ∀ {es : List Entry}, AllReadBack es →
    Json.ItemsReadBack (listToJson es)
  | [], _ => trivial
  | _ :: _, h => ⟨readsBack_toJson h.1, itemsReadBack_listToJson h.2⟩

end

end Entry

/-! ### Lists and absent values -/

namespace Json

theorem decodeItems_map {α : Type} {item : Json → Except DecodeError α} {encode : α → Json}
    {as : List α} (h : ∀ a ∈ as, item (encode a) = .ok a) :
    decodeItems item (as.map encode) = .ok as := by
  induction as with
  | nil => rfl
  | cons a as ih =>
    rw [List.forall_mem_cons] at h
    rw [List.map_cons, decodeItems, h.1, ih h.2]
    rfl

/-- An absent value is null, and a present one is not. -/
theorem decodeOption_optionJson {α : Type} {value : Json → Except DecodeError α}
    {encode : α → Json} {a : Option α} (hnull : ∀ b, encode b ≠ .null)
    (h : ∀ b ∈ a, value (encode b) = .ok b) :
    decodeOption value (optionJson encode a) = .ok a := by
  cases a with
  | none => rfl
  | some b =>
    unfold decodeOption optionJson
    split
    · next heq => exact absurd heq (hnull b)
    · rw [h b rfl]
      rfl

theorem readsBack_optionJson {α : Type} {encode : α → Json} (h : ∀ a, (encode a).ReadsBack)
    {a : Option α} : (optionJson encode a).ReadsBack := by
  cases a with
  | none => trivial
  | some a => exact h a

theorem itemsReadBack_map {α : Type} {encode : α → Json} {as : List α}
    (h : ∀ a ∈ as, (encode a).ReadsBack) : ItemsReadBack (as.map encode) := by
  induction as with
  | nil => trivial
  | cons a as ih =>
    rw [List.forall_mem_cons] at h
    exact ⟨h.1, ih h.2⟩

theorem decodeInt64_ofInt (i : Int64) : decodeInt64 (.ofInt i.toInt) = .ok i := by
  show (if fitsInt64 i.toInt then Except.ok (Int64.ofInt i.toInt) else _) = _
  rw [if_pos (fitsInt64_toInt i), Int64.ofInt_toInt]

end Json

/-! ### Parts of a request -/

namespace Entry

theorem listToJson_eq_map (es : List Entry) : listToJson es = es.map toJson := by
  induction es with
  | nil => rfl
  | cons e es ih => rw [listToJson, ih, List.map_cons]

theorem decode_toJson (e : Entry) : decode e.toJson = .ok e := by
  unfold decode
  rw [(fits_toJson e).isReadable, ofJson?_toJson]
  rfl

theorem decodeList_listToJson (es : List Entry) :
    decodeList (.array (listToJson es)) = .ok es := by
  rw [listToJson_eq_map]
  exact Json.decodeItems_map fun e _ => decode_toJson e

end Entry

theorem SortKey.decode_toJson (k : SortKey) : decode k.toJson = .ok k := by
  obtain ⟨field, descending⟩ := k
  rfl

theorem Dimension.decode_toJson (d : Dimension) : decode d.toJson = .ok d := by
  cases d with
  | period p c => cases p <;> cases c <;> rfl
  | field name => rfl

theorem AggregateFunction.decode_toJson (f : AggregateFunction) : decode f.toJson = .ok f := by
  cases f
  rfl

/-! ### Queries -/

namespace Query

theorem decode_toJson (q : Query) : decode q.toJson = .ok q := by
  obtain ⟨find, conditions, orderBy, select, limit, offset⟩ := q
  have hconditions := Entry.decodeList_listToJson conditions
  have horder : Json.decodeOption SortKey.decode (optionJson SortKey.toJson orderBy)
      = .ok orderBy :=
    Json.decodeOption_optionJson (fun _ => by rintro ⟨⟩) fun k _ => k.decode_toJson
  have hselect : decodeSelect (optionJson (fun names => .array (names.map .text)) select)
      = .ok select :=
    Json.decodeOption_optionJson (fun _ => by rintro ⟨⟩)
      fun names _ => Json.decodeItems_map fun _ _ => rfl
  have hlimit := Json.decodeInt64_ofInt limit
  have hoffset := Json.decodeInt64_ofInt offset
  unfold decode toJson
  simp only [Draft.take, Json.decodeOnce, bind_pure_comp, List.foldlM_cons, hconditions, horder,
    hselect, hlimit, hoffset, List.foldlM_nil, bind_pure, bind_map_left, bind_assoc]
  rfl

theorem readsBack_orderJson (order : Option SortKey) :
    (optionJson SortKey.toJson order).ReadsBack := by
  refine Json.readsBack_optionJson fun k => ?_
  exact ⟨trivial, trivial, trivial⟩

theorem readsBack_selectJson (select : Option (List String)) :
    (optionJson (fun names => .array (names.map .text)) select).ReadsBack := by
  refine Json.readsBack_optionJson fun names => ?_
  exact Json.itemsReadBack_map fun _ _ => trivial

theorem readsBack_toJson {q : Query} (h : Entry.AllReadBack q.conditions) :
    q.toJson.ReadsBack :=
  ⟨trivial, Entry.itemsReadBack_listToJson h, readsBack_orderJson q.orderBy,
    readsBack_selectJson q.select, fitsInt64_toInt q.limit, fitsInt64_toInt q.offset, trivial⟩

/-- A query reads back from its text. -/
theorem ofJsonText_write {q : Query} (h : Entry.AllReadBack q.conditions) {depth : Nat}
    (hdepth : q.toJson.nesting ≤ depth) : ofJsonText depth q.toJson.write = .ok q := by
  unfold ofJsonText
  rw [Json.scanWithin_write (readsBack_toJson h) hdepth]
  dsimp only
  rw [decode_toJson]
  rfl

end Query

namespace Aggregation

theorem decode_toJson (a : Aggregation) : decode a.toJson = .ok a := by
  obtain ⟨find, dimensions, conditions, functions, showPercent, top, limit⟩ := a
  have hdimensions : Json.decodeList Dimension.decode (.array (dimensions.map Dimension.toJson))
      = .ok dimensions := Json.decodeItems_map fun d _ => d.decode_toJson
  have hconditions := Entry.decodeList_listToJson conditions
  have hfunctions : Json.decodeList AggregateFunction.decode
      (.array (functions.map AggregateFunction.toJson)) = .ok functions :=
    Json.decodeItems_map fun f _ => f.decode_toJson
  have htop : Json.decodeOption Json.decodeInt64 (optionJson (fun n => .ofInt n.toInt) top)
      = .ok top :=
    Json.decodeOption_optionJson (fun _ => by rintro ⟨⟩) fun n _ => Json.decodeInt64_ofInt n
  have hlimit := Json.decodeInt64_ofInt limit
  unfold decode toJson
  simp only [Draft.take, Json.decodeOnce, bind_pure_comp, List.foldlM_cons, hdimensions,
    hconditions, hfunctions, htop, hlimit, List.foldlM_nil, bind_pure, bind_map_left, bind_assoc]
  rfl

theorem readsBack_toJson {a : Aggregation} (h : Entry.AllReadBack a.conditions) :
    a.toJson.ReadsBack := by
  have hdimensions : Json.ItemsReadBack (a.dimensions.map Dimension.toJson) :=
    Json.itemsReadBack_map fun d _ => by
      cases d
      · exact ⟨trivial, trivial, trivial⟩
      · exact ⟨trivial, trivial⟩
  have hfunctions : Json.ItemsReadBack (a.functions.map AggregateFunction.toJson) :=
    Json.itemsReadBack_map fun _ _ => trivial
  have htop : (optionJson (fun n => .ofInt n.toInt) a.top).ReadsBack := by
    refine Json.readsBack_optionJson fun n => ?_
    exact fitsInt64_toInt n
  exact ⟨trivial, hdimensions, Entry.itemsReadBack_listToJson h, hfunctions, trivial, htop,
    fitsInt64_toInt a.limit, trivial⟩

/-- An aggregation reads back from its text. -/
theorem ofJsonText_write {a : Aggregation} (h : Entry.AllReadBack a.conditions) {depth : Nat}
    (hdepth : a.toJson.nesting ≤ depth) : ofJsonText depth a.toJson.write = .ok a := by
  unfold ofJsonText
  rw [Json.scanWithin_write (readsBack_toJson h) hdepth]
  dsimp only
  rw [decode_toJson]
  rfl

end Aggregation

/-! ### Requests -/

/-- **Requests read back**: the text of a query or an aggregation whose doubles read back is read
as what was written, at any depth of nesting that the reader allows. -/
theorem readBack_of_write :
    (∀ {q : Query} {depth : Nat}, Entry.AllReadBack q.conditions → q.toJson.nesting ≤ depth →
      Query.ofJsonText depth q.toJson.write = .ok q) ∧
    (∀ {a : Aggregation} {depth : Nat}, Entry.AllReadBack a.conditions →
      a.toJson.nesting ≤ depth → Aggregation.ofJsonText depth a.toJson.write = .ok a) :=
  ⟨fun h hdepth => Query.ofJsonText_write h hdepth,
    fun h hdepth => Aggregation.ofJsonText_write h hdepth⟩

/-- Conditions with an integral double beside the integer, in a negated group. -/
def twoConditions : List Entry :=
  [.group .any [.clause (.equalTo "Points" (.integer 2)),
    .clause { Clause.equalTo "Points" (.real (.ofInt 2)) with negated := true }] true]

/-- The integer and the double stay what they are, the order keeps the sign in its field, and a
field that is called like a period is none. -/
theorem readBack_of_write_sample :
    ∃ q a, q.conditions = twoConditions ∧ a.conditions = twoConditions ∧
      Query.ofJsonText Json.depthLimit q.toJson.write = .ok q ∧
      Aggregation.ofJsonText Json.depthLimit a.toJson.write = .ok a := by
  have htwo : Entry.AllReadBack twoConditions :=
    ⟨⟨trivial, ⟨by decide +kernel, by decide +kernel⟩, trivial⟩, trivial⟩
  refine ⟨⟨"task", twoConditions, some ⟨"-created", true⟩, none, 10, 0⟩,
    ⟨"task", [.field "month", .period .month .updated], twoConditions, [.count], true, none, 100⟩,
    rfl, rfl, readBack_of_write.1 htwo (by decide), readBack_of_write.2 htwo (by decide)⟩

end GraphIndex
