import GraphIndex.Proofs.Query.ReadBack

/-!
# Queries read from tables

A reader that looks up members before it reads a query has every object as a table: its keys ascend
and each occurs once. Conditions read back from their tables (`Entry.decodeList_sortedItems`), and
so does a query whose limit is entered anew (`Query.decode_enter_limit`). Nothing is asked of
doubles here, for no text is read.
-/

namespace GraphIndex

namespace Json

/-- An object without the members of a key. -/
def without (key : String) : Json → Json
  | .object members => .object (members.filter (·.1 != key))
  | j => j

theorem sortedItems_map {α : Type} (encode : α → Json) (as : List α) :
    sortedItems (as.map encode) = as.map fun a => (encode a).sorted := by
  induction as with
  | nil => rfl
  | cons a as ih => rw [List.map_cons, sortedItems, ih, List.map_cons]

theorem sorted_optionJson {α : Type} (encode : α → Json) (a : Option α) :
    (optionJson encode a).sorted = optionJson (fun a => (encode a).sorted) a := by
  cases a <;> rfl

end Json

/-! ### Conditions -/

theorem Operand.sorted_toJson (v : Operand) : v.toJson.sorted = v.toJson := by
  cases v <;> rfl

theorem Operand.isReadable_toJson (v : Operand) : v.toJson.isReadable = true := by
  cases v <;> rfl

theorem Clause.sorted_toJson (c : Clause) :
    c.toJson.sorted = .object (("field", .text c.field) :: (negationMember c.negated
      ++ [("operator", .text c.operator.symbol), ("value", c.value.toJson)])) := by
  obtain ⟨field, op, v, negated⟩ := c
  cases negated <;> cases v <;> rfl

theorem Clause.ofJson?_sorted (c : Clause) : ofJson? c.toJson.sorted = some c := by
  rw [c.sorted_toJson]
  obtain ⟨field, op, v, negated⟩ := c
  have hop : Operator.ofJson? (.text op.symbol) = some op := Operator.ofText?_symbol op
  have hv : Operand.ofMember? (some v.toJson) = some v := v.ofJson?_toJson
  cases negated <;>
    simp [negationMember, ofJson?, Json.unique?, ofFields?, hop, hv, Json.flag?]

namespace Entry

theorem sorted_group (kind : Connective) (members : List Entry) (negated : Bool) :
    (group kind members negated).toJson.sorted
      = .object (("clauses", .array (Json.sortedItems (listToJson members)))
        :: (negationMember negated ++ [("type", .text kind.name)])) := by
  cases negated <;> rfl

theorem ofJson?_sorted_clause (c : Clause) :
    ofJson? (clause c).toJson.sorted = some (clause c) := by
  have hc := c.ofJson?_sorted
  rw [toJson]
  rw [c.sorted_toJson] at hc ⊢
  rw [ofJson?, hc]
  cases c.negated <;> simp [negationMember, Json.unique?]

theorem ofJson?_sorted_group {kind : Connective} {members : List Entry} {negated : Bool}
    (h : ofItems? (Json.sortedItems (listToJson members)) = some members) :
    ofJson? (group kind members negated).toJson.sorted = some (group kind members negated) := by
  have hkind := Connective.ofJson?_name kind
  rw [sorted_group, ofJson?]
  cases negated <;>
    simp [negationMember, Json.unique?, membersOf?, listOf?, h, groupOf?, hkind, Json.flag?]

mutual

/-- Conditions read back from their tables. -/
theorem ofJson?_sorted : ∀ e : Entry, ofJson? e.toJson.sorted = some e
  | clause c => ofJson?_sorted_clause c
  | group _ members _ => ofJson?_sorted_group (ofItems?_sortedItems members)

theorem ofItems?_sortedItems :
    ∀ es : List Entry, ofItems? (Json.sortedItems (listToJson es)) = some es
  | [] => rfl
  | e :: es => by
    rw [listToJson, Json.sortedItems, ofItems?, ofJson?_sorted e, ofItems?_sortedItems es]
    rfl

end

mutual

theorem isReadable_sorted : ∀ e : Entry, e.toJson.sorted.isReadable = true
  | clause c => by
    rw [toJson, c.sorted_toJson]
    have hvalue := c.value.isReadable_toJson
    cases c.negated <;> simp [negationMember, Json.isReadable, Json.membersReadable, hvalue]
  | group kind members negated => by
    rw [sorted_group]
    have hmembers := itemsReadable_sortedItems members
    cases negated <;> simp [negationMember, Json.isReadable, Json.membersReadable, hmembers]

theorem itemsReadable_sortedItems :
    ∀ es : List Entry, Json.itemsReadable (Json.sortedItems (listToJson es)) = true
  | [] => rfl
  | e :: es => Bool.and_eq_true_iff.mpr ⟨isReadable_sorted e, itemsReadable_sortedItems es⟩

end

theorem decode_sorted (e : Entry) : decode e.toJson.sorted = .ok e := by
  unfold decode
  rw [isReadable_sorted, ofJson?_sorted]
  rfl

theorem decodeList_sortedItems (es : List Entry) :
    decodeList (.array (Json.sortedItems (listToJson es))) = .ok es := by
  rw [listToJson_eq_map, Json.sortedItems_map]
  exact Json.decodeItems_map fun e _ => e.decode_sorted

end Entry

theorem SortKey.decode_sorted (k : SortKey) : decode k.toJson.sorted = .ok k := by
  obtain ⟨field, descending⟩ := k
  rfl

/-! ### Queries -/

namespace Query

/-- The members of a query without its limit, as a table. -/
def tableWithoutLimit (q : Query) : List (String × Json) :=
  [("find", .text q.find), ("offset", .ofInt q.offset.toInt),
    ("orderBy", (optionJson SortKey.toJson q.orderBy).sorted),
    ("select", (optionJson (fun names => .array (names.map .text)) q.select).sorted),
    ("where", .array (Json.sortedItems (Entry.listToJson q.conditions)))]

theorem sorted_without_limit (q : Query) :
    (q.toJson.without "limit").sorted = .object q.tableWithoutLimit := by
  rfl

/-- A query reads back from its table with any limit in place of its own. -/
theorem decode_enter_limit (q : Query) (n : Int64) :
    decode (.object (Json.enter "limit" (.ofInt n.toInt) q.tableWithoutLimit))
      = .ok { q with limit := n } := by
  obtain ⟨find, conditions, orderBy, select, limit, offset⟩ := q
  have hconditions := Entry.decodeList_sortedItems conditions
  have horder : Json.decodeOption SortKey.decode (optionJson SortKey.toJson orderBy).sorted
      = .ok orderBy := by
    rw [Json.sorted_optionJson]
    exact Json.decodeOption_optionJson (fun _ => by rintro ⟨⟩) fun k _ => k.decode_sorted
  have hselect : decodeSelect (optionJson (fun names => .array (names.map .text)) select).sorted
      = .ok select := by
    rw [Json.sorted_optionJson]
    refine Json.decodeOption_optionJson (fun _ => by rintro ⟨⟩) fun names _ => ?_
    rw [Json.sorted, Json.sortedItems_map]
    exact Json.decodeItems_map fun _ _ => rfl
  have hlimit := Json.decodeInt64_ofInt n
  have hoffset := Json.decodeInt64_ofInt offset
  have htable : Json.enter "limit" (.ofInt n.toInt)
      (tableWithoutLimit ⟨find, conditions, orderBy, select, limit, offset⟩)
      = ("find", .text find) :: ("limit", .ofInt n.toInt)
        :: (tableWithoutLimit ⟨find, conditions, orderBy, select, limit, offset⟩).tail := rfl
  rw [htable]
  unfold decode tableWithoutLimit
  simp only [List.tail_cons, Draft.take, Json.decodeOnce, bind_pure_comp, List.foldlM_cons,
    hconditions, horder, hselect, hlimit, hoffset, List.foldlM_nil, bind_pure, bind_map_left,
    bind_assoc]
  rfl

end Query

end GraphIndex
