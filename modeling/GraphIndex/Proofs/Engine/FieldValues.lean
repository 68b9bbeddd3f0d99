import GraphIndex.Engine.Fields
import GraphIndex.Proofs.Engine.Entries
import GraphIndex.Proofs.Store.ValueOrder

/-!
# Looked up values of fields

Field values are looked up for some nodes at a time, and the rows of all these statements are
entered into one table. `Store.text?_fieldValues` says what comes out: for each node and each field
that were asked for the values of the field in their order, joined, whatever the number of nodes at
a time and the order of the nodes. `Database.values_fieldResolver` says when nothing can be looked
up.
-/

namespace GraphIndex

/-! ### Parts of a list -/

section

variable {α : Type} {size : Nat} {as part : List α}

theorem chunks_cons (size : Nat) (a : α) (rest : List α) : chunks size (a :: rest)
    = (a :: rest.take (size - 1)) :: chunks size (rest.drop (size - 1)) := by
  rw [chunks]

theorem flatten_chunks (size : Nat) (as : List α) : (chunks size as).flatten = as := by
  fun_induction chunks size as with
  | case1 => rfl
  | case2 a rest ih => rw [List.flatten_cons, ih, List.cons_append, List.take_append_drop]

/-- No part is empty, and none is longer than it may be. -/
theorem length_of_mem_chunks (h : part ∈ chunks size as) :
    1 ≤ part.length ∧ part.length ≤ max size 1 := by
  fun_induction chunks size as with
  | case1 => exact absurd h List.not_mem_nil
  | case2 a rest ih =>
    rcases List.mem_cons.mp h with rfl | h
    · rw [List.length_cons, List.length_take]
      omega
    · exact ih h

end

/-! ### Bound values -/

section

variable {nodes fields : List String}

/-- Each statement binds all names and at least one node; with few names it binds few nodes. -/
theorem isBindable_iff :
    isBindable nodes fields = true ↔ nodes = [] ∨ fields.length < bindingLimit := by
  unfold isBindable
  simp only [List.all_eq_true, decide_eq_true_eq]
  constructor
  · intro h
    cases nodes with
    | nil => exact Or.inl rfl
    | cons node nodes =>
      -- The first part has a node, whatever the number of names.
      have hfirst := h _ (by rw [chunks_cons]; exact List.mem_cons_self)
      rw [List.length_cons] at hfirst
      exact Or.inr (by omega)
  · rintro (rfl | hfew) part hpart
    · exact absurd hpart (by simp [chunks])
    · have hlength := (length_of_mem_chunks hpart).2
      unfold chunkSize boundValues at hlength
      unfold bindingLimit at hfew ⊢
      omega

/-- What is too much for one statement cannot be looked up, and all else can. -/
theorem Database.values_fieldResolver (db : Database) (nodes fields : List String) :
    db.fieldResolver.values nodes fields
      = if nodes = [] ∨ fields.length < bindingLimit then db.fieldSource.values nodes fields
        else .error .storage := by
  show (if isBindable nodes fields = true then _ else _) = _
  simp only [isBindable_iff]

end

/-! ### Values in order -/

/-- Texts one after the other, if there are any. -/
def joined (texts : List String) : Option String :=
  if texts.isEmpty then none else some (valueSeparator.intercalate texts)

theorem joined_append_singleton (texts : List String) (t : String) : joined (texts ++ [t])
    = some (((joined texts).map (· ++ valueSeparator ++ t)).getD t) := by
  unfold joined
  cases texts with
  | nil => rfl
  | cons s texts =>
    show some (valueSeparator.intercalate ((s :: texts) ++ [t])) = _
    rw [String.intercalate_append_of_ne_nil (List.cons_ne_nil _ _) (List.cons_ne_nil _ _),
      String.intercalate_singleton]
    rfl

namespace Store

/-- Whether a row holds a value of a field of a node. -/
def holdsValue (node field : String) (r : FieldRow) : Bool :=
  r.node == node && r.field == field && r.value.isSome

/-- The values of a field of a node in their order. -/
def valuesInOrder (s : Store) (node field : String) : List String :=
  ((s.fields.filter (holdsValue node field)).mergeSort
    fun r r' => r.order.order r'.order != .gt).filterMap (·.value)

/-- All values of a field of a node as one text. -/
def fieldText? (s : Store) (node field : String) : Option String :=
  joined (s.valuesInOrder node field)

/-- Whether the places of field values are values that the store can hold. -/
def HasStorablePlaces (s : Store) : Prop := ∀ r ∈ s.fields, r.order.IsStorable

end Store

/-! ### Tables of values -/

theorem enterValue_eq_enterAt (key value : String) (table : List (String × String)) :
    enterValue key value table = enterAt key value (· ++ valueSeparator ++ value) table := by
  induction table with
  | nil => rfl
  | cons row table ih => rw [enterValue, enterAt, ih]

namespace FieldTable

theorem enterIn_eq_enterAt (node field value : String)
    (table : List (String × List (String × String))) : enterIn node field value table
      = enterAt node [(field, value)] (enterValue field value) table := by
  induction table with
  | nil => rfl
  | cons row table ih => rw [enterIn, enterAt, ih]

/-- The text of a field of a node. -/
def text? (t : FieldTable) (node field : String) : Option String :=
  (t.get? node).bind (·.lookup field)

/-- No node occurs twice and none without a field, and no field occurs twice under one node. -/
structure Keyed (t : FieldTable) : Prop where
  nodes : (t.entries.map (·.1)).Nodup
  fields : ∀ row ∈ t.entries, row.2 ≠ [] ∧ (row.2.map (·.1)).Nodup

variable {t : FieldTable} {r : FieldRow} {node field value : String}

theorem Keyed.add (h : t.Keyed) (r : FieldRow) : (t.add r).Keyed := by
  unfold FieldTable.add
  cases r.value with
  | none => exact h
  | some value =>
    show Keyed ⟨enterIn r.node r.field value t.entries⟩
    rw [enterIn_eq_enterAt]
    refine ⟨nodup_enterAt h.nodes, fun row hrow => ?_⟩
    rcases mem_enterAt hrow with hmem | rfl | ⟨fields, hmem, rfl⟩
    · exact h.fields row hmem
    · exact ⟨List.cons_ne_nil _ _, List.nodup_singleton _⟩
    · rw [enterValue_eq_enterAt]
      refine ⟨enterAt_ne_nil, nodup_enterAt (h.fields _ hmem).2⟩

/-- A row adds its value to the text of its field of its node. -/
theorem text?_add (t : FieldTable) (hvalue : r.value = some value) (node field : String) :
    (t.add r).text? node field = if node = r.node ∧ field = r.field then
      some (((t.text? node field).map (· ++ valueSeparator ++ value)).getD value)
    else t.text? node field := by
  have hadd : t.add r = ⟨enterIn r.node r.field value t.entries⟩ := by
    unfold add
    rw [hvalue]
  rw [hadd]
  unfold text? get?
  rw [enterIn_eq_enterAt, lookup_enterAt]
  -- The node may be new to the table, and the field new to the node.
  by_cases hnode : node = r.node
  · subst hnode
    cases t.entries.lookup r.node with
    | none =>
      by_cases hfield : field = r.field
      · simp [hfield]
      · simp [hfield, List.lookup_cons, beq_false_of_ne hfield]
    | some fields =>
      by_cases hfield : field = r.field <;>
        simp [enterValue_eq_enterAt, lookup_enterAt, hfield]
  · simp [hnode]

theorem ofRows_append_singleton (rows : List FieldRow) (r : FieldRow) :
    ofRows (rows ++ [r]) = (ofRows rows).add r := by
  unfold ofRows
  rw [List.foldl_append]
  rfl

theorem keyed_ofRows (rows : List FieldRow) : (ofRows rows).Keyed := by
  induction rows using List.reverseRecOn with
  | nil => exact ⟨List.nodup_nil, fun row hrow => absurd hrow List.not_mem_nil⟩
  | append_singleton rows r ih =>
    rw [ofRows_append_singleton]
    exact ih.add r

/-- The text of a field of a node is made of the values of its rows. -/
theorem text?_ofRows (rows : List FieldRow) (node field : String) : (ofRows rows).text? node field
    = joined ((rows.filter (Store.holdsValue node field)).filterMap (·.value)) := by
  -- The last row comes behind all others, in the table as in the text.
  induction rows using List.reverseRecOn with
  | nil => rfl
  | append_singleton rows r ih =>
    rw [ofRows_append_singleton, List.filter_append, List.filterMap_append]
    cases hvalue : r.value with
    | none =>
      have hadd : (ofRows rows).add r = ofRows rows := by
        unfold add
        rw [hvalue]
      rw [hadd, ih]
      simp [Store.holdsValue, hvalue]
    | some value =>
      rw [text?_add _ hvalue, ih]
      by_cases hrow : node = r.node ∧ field = r.field
      · obtain ⟨rfl, rfl⟩ := hrow
        rw [if_pos ⟨rfl, rfl⟩, ← joined_append_singleton]
        simp [Store.holdsValue, hvalue]
      · have hnot : Store.holdsValue node field r = false := by
          rw [← Bool.not_eq_true]
          unfold Store.holdsValue
          simp only [Bool.and_eq_true, beq_iff_eq]
          exact fun h => hrow ⟨h.1.1.symm, h.1.2.symm⟩
        rw [if_neg hrow]
        simp [hnot]

end FieldTable

/-! ### Rows of field values -/

/-- A list that is taken once for the part with a given member: no member is in two parts. -/
theorem flatMap_of_nodup_flatten {α β : Type} [DecidableEq α] {parts : List (List α)}
    (h : parts.flatten.Nodup) (a : α) (l : List β) :
    (parts.flatMap fun part => if a ∈ part then l else [])
      = if a ∈ parts.flatten then l else [] := by
  induction parts with
  | nil => rfl
  | cons part parts ih =>
    rw [List.flatten_cons, List.nodup_append] at h
    rw [List.flatMap_cons, ih h.2.1, List.flatten_cons]
    by_cases hpart : a ∈ part
    · have hrest : a ∉ parts.flatten := fun hmem => h.2.2 a hpart a hmem rfl
      rw [if_pos hpart, if_neg hrest, if_pos (List.mem_append_left _ hpart), List.append_nil]
    · rw [if_neg hpart, List.nil_append]
      simp only [List.mem_append, hpart, false_or]

namespace Store

variable {s : Store} {nodes fields : List String} {node field : String}

theorem holdsValue_iff {r : FieldRow} : holdsValue node field r = true ↔
    r.node = node ∧ r.field = field ∧ r.value.isSome = true := by
  unfold holdsValue
  rw [Bool.and_eq_true, Bool.and_eq_true, beq_iff_eq, beq_iff_eq, and_assoc]

/-- Rows of field values are sorted by keys. -/
theorem HasStorablePlaces.exists_isSortKey (h : s.HasStorablePlaces) {rows : List FieldRow}
    (hrows : rows ⊆ s.fields) : IsSortKey rows fieldOrder
      fun r => toLex (toLex (r.node, r.field), r.order.orderKey) := by
  have hnode : IsSortKey rows (fun r r' => Datum.textOrder r.node r'.node) (·.node) :=
    .of_compare fun _ _ _ _ => Datum.textOrder_eq_compare _ _
  have hfield : IsSortKey rows (fun r r' => Datum.textOrder r.field r'.field) (·.field) :=
    .of_compare fun _ _ _ _ => Datum.textOrder_eq_compare _ _
  have hstorable : ∀ d ∈ rows.map (·.order), d.IsStorable := by
    intro d hd
    obtain ⟨r, hr, rfl⟩ := List.mem_map.mp hd
    exact h r (hrows hr)
  exact (hnode.andThen hfield).andThen (Datum.isSortKey_order_of_isStorable hstorable).comap

/-- Of the rows that were asked for, those of one field of one node are all that there are, or
none. -/
theorem filter_holdsValue_asked (s : Store) (part fields : List String) (node field : String) :
    (s.fields.filter fun r => part.contains r.node && fields.contains r.field
      && r.value.isSome).filter (holdsValue node field)
        = if node ∈ part ∧ field ∈ fields then s.fields.filter (holdsValue node field) else [] := by
  rw [List.filter_filter]
  split_ifs with hmem
  · refine List.filter_congr fun r _ => ?_
    by_cases hr : holdsValue node field r = true
    · obtain ⟨rfl, rfl, hsome⟩ := holdsValue_iff.mp hr
      simp [hr, hmem.1, hmem.2, hsome]
    · simp [hr]
  · refine List.filter_eq_nil_iff.mpr fun r _ hr => hmem ?_
    obtain ⟨hr, hasked⟩ := Bool.and_eq_true_iff.mp hr
    obtain ⟨rfl, rfl, -⟩ := holdsValue_iff.mp hr
    simp only [Bool.and_eq_true, List.contains_iff_mem] at hasked
    exact hasked.1

/-- Rows of one field of one node differ in their places only. -/
theorem mergeSort_fieldOrder (s : Store) (node field : String) :
    ((s.fields.filter (holdsValue node field)).mergeSort fun r r' => fieldOrder r r' != .gt)
      = (s.fields.filter (holdsValue node field)).mergeSort
          fun r r' => r.order.order r'.order != .gt := by
  have hmap := List.map_mergeSort (f := id) (l := s.fields.filter (holdsValue node field))
    (r := fun r r' => fieldOrder r r' != .gt) (s := fun r r' => r.order.order r'.order != .gt) (by
      intro r hr r' hr'
      obtain ⟨hnode, hfield, -⟩ := holdsValue_iff.mp (List.mem_filter.mp hr).2
      obtain ⟨hnode', hfield', -⟩ := holdsValue_iff.mp (List.mem_filter.mp hr').2
      unfold fieldOrder
      simp [hnode, hfield, hnode', hfield', Datum.textOrder])
  rwa [List.map_id, List.map_id] at hmap

/-- Of the rows of a statement those of one field of one node are that field's values in order. -/
theorem filter_fieldRows (h : s.HasStorablePlaces) (part fields : List String)
    (node field : String) : (s.fieldRows part fields).filter (holdsValue node field)
      = if node ∈ part ∧ field ∈ fields then (s.fields.filter (holdsValue node field)).mergeSort
          fun r r' => r.order.order r'.order != .gt
        else [] := by
  unfold fieldRows
  rw [(h.exists_isSortKey (List.filter_subset_self _)).filter_mergeSort, filter_holdsValue_asked]
  split_ifs
  · exact mergeSort_fieldOrder s node field
  · exact List.mergeSort_nil

/-- **Looked up values**: a field of a node has its values in their order, if both were asked for,
for every number of nodes at a time and every order of the nodes. -/
theorem text?_fieldValues (h : s.HasStorablePlaces) (hnodes : nodes.Nodup) (size : Nat)
    (fields : List String) (node field : String) :
    (s.fieldValues size nodes fields).text? node field
      = if node ∈ nodes ∧ field ∈ fields then s.fieldText? node field else none := by
  -- A node is in one part only, so that its rows come from one statement and in their order.
  have hparts : (chunks size nodes).flatten.Nodup := by rwa [flatten_chunks]
  unfold fieldValues
  rw [FieldTable.text?_ofRows, List.filter_flatMap]
  simp only [filter_fieldRows h]
  by_cases hfield : field ∈ fields
  · simp only [hfield, and_true]
    rw [flatMap_of_nodup_flatten hparts, flatten_chunks]
    split_ifs <;> rfl
  · simp [hfield, joined]

end Store

end GraphIndex
