import GraphIndex.Proofs.Plan.Scoping
import GraphIndex.Proofs.Query.Keys

/-!
# Keys of joined rows

What the joins of dimensions bring in. Where they fit, the rows at hand have one of the keys of the
node along each dimension (`Dimension.BecomeAll.texts_mem`); and each combination of keys is that of
some rows, one for each dimension (`Dimension.BecomeAll.attained`).
-/

namespace GraphIndex

variable {store : Store} {σ : Scope} {r : NodeRow}

/-! ### Months -/

theorem Calendar.Date.splitMonth_le (month day : Nat) (lengths : List Nat) :
    (splitMonth month day lengths).1 ≤ month + lengths.length := by
  induction lengths generalizing month day with
  | nil => exact le_refl _
  | cons length lengths ih =>
    have hrest := ih (month + 1) (day - length)
    rw [splitMonth, List.length_cons]
    split
    · exact Nat.le_add_right _ _
    · omega

/-- The twelve months, and the number behind them that a day past the year would have. -/
theorem month_storeDate_le (n : Int) : (storeDate n).month ≤ 13 := by
  unfold storeDate
  dsimp only
  split
  · show 2 ≤ 13
    omega
  · have hlength : ∀ leap, (Calendar.monthLengths leap).length = 12 := fun leap => rfl
    have hle := Calendar.Date.splitMonth_le 1 (Calendar.Date.splitYear (n + Calendar.Date.epoch)).2
      (Calendar.monthLengths (Calendar.isLeapYear
        (Calendar.Date.splitYear (n + Calendar.Date.epoch)).1))
    rw [hlength] at hle
    exact hle

/-! ### Periods -/

namespace Datum

/-- The number of the quarter is computed from the digits of the month. -/
theorem quarter_of_month {m : Nat} (h : m ≤ 13) :
    (((text (.ofList (paddedDigits 2 m))).cast .integer).plus (.integer 2)).divide (.integer 3)
      = .integer (Int64.ofNat ((m + 2) / 3)) := by
  interval_cases m <;> rfl

theorem date_divide (format : List DatePart) (d : Datum) :
    (d.divide (.integer 1000)).date format
      = ((d.dayOfMs?.map (dateText format)).map text).getD null := by
  unfold date dayOfMs?
  cases (d.divide (.integer 1000)).toReal?.bind dayOfSeconds? <;> rfl

theorem toText?_orText (d : Datum) (s : String) :
    (d.orText s).toText? = some (d.toText?.getD s) := by
  cases d <;> rfl

theorem toText?_cast_text (d : Datum) : (d.cast .text).toText? = d.toText? := by
  cases d <;> rfl

theorem toText?_ofText? (t : Option String) : (ofText? t).toText? = t := by cases t <;> rfl

end Datum

theorem value_dateExpr (hnode : σ.row .node = .node r) (format : List DatePart) (c : DateColumn) :
    (dateExpr format c).value σ
      = (((r.cell c.column).dayOfMs?.map (dateText format)).map Datum.text).getD .null := by
  rw [← Datum.date_divide, ← value_nodeColumn hnode]
  rfl

/-- The text of a period is that of the day on which the time of a column falls. -/
theorem Period.toText?_value_expr (hnode : σ.row .node = .node r) (p : Period) (c : DateColumn) :
    ((p.expr c).value σ).toText? = (r.cell c.column).dayOfMs?.map p.label := by
  have hdate : ∀ format, ((dateExpr format c).value σ).toText?
      = (r.cell c.column).dayOfMs?.map (dateText format) := by
    intro format
    rw [value_dateExpr hnode]
    cases (r.cell c.column).dayOfMs? <;> rfl
  cases p with
  | quarter =>
    have hvalue : (Period.quarter.expr c).value σ
        = (((dateExpr [.year] c).value σ).concat (.text "-Q")).concat
          (((((dateExpr [.month] c).value σ).cast .integer).plus (.integer 2)).divide
            (.integer 3)) := rfl
    rw [hvalue, value_dateExpr hnode, value_dateExpr hnode]
    cases (r.cell c.column).dayOfMs? with
    | none => rfl
    | some n =>
      have hmonth : dateText [.month] n = .ofList (paddedDigits 2 (storeDate n).month) := by
        unfold dateText
        rw [List.flatMap_singleton]
        rfl
      have hle := month_storeDate_le n
      have hlabel : Period.quarter.label n
          = dateText [.year] n ++ "-Q" ++ toString (((storeDate n).month + 2) / 3) := rfl
      -- Few quotients are possible, and each has one digit.
      have hquarter : ((storeDate n).month + 2) / 3 ≤ 5 := by omega
      simp only [Option.map_some, Option.getD_some]
      rw [hmonth, Datum.quarter_of_month hle, hlabel]
      generalize ((storeDate n).month + 2) / 3 = q at hquarter
      interval_cases q <;> rfl
  | day => exact hdate _
  | week => exact hdate _
  | month => exact hdate _
  | year => exact hdate _

/-! ### Keys of rows -/

/-- The key of the rows at hand. -/
def GroupKey.text (key : GroupKey) (σ : Scope) : String := ((key.expr.value σ).toText?).getD ""

theorem GroupKey.text_of (e : Expr) (joins : List Join) (σ : Scope) :
    (GroupKey.of e joins).text σ = ((e.value σ).toText?).getD noneKey := by
  show (((e.value σ).orText noneKey).toText?).getD "" = _
  rw [Datum.toText?_orText, Option.getD_some]

namespace Dimension

theorem getD_mem_keysOf {d : Dimension} {v : Option String} (h : v ∈ d.values store r) :
    v.getD noneKey ∈ d.keysOf store r :=
  mem_keysOf.mpr (Or.inl ⟨v, h, rfl⟩)

/-- The choices of a left join hold the keys of what stands in its partners, or of nothing. -/
theorem mem_keysOf_iff_choices {d : Dimension} {j : Join} (hleft : j.kind = .left) (c : Column)
    (hvalues : (j.partners store σ).map (fun row => (row.cell c).toText?) = d.values store r)
    (k : String) : k ∈ d.keysOf store r ↔
      ∃ row ∈ j.choices store σ, ((row.cell c).toText?).getD noneKey = k := by
  rw [mem_keysOf, ← hvalues]
  simp only [Join.mem_choices_of_left store j hleft, List.mem_map, List.map_eq_nil_iff]
  have hmissing : ((Row.missing.cell c).toText?).getD noneKey = noneKey := by cases c <;> rfl
  constructor
  · rintro (⟨v, ⟨row, hrow, rfl⟩, rfl⟩ | ⟨hnil, rfl⟩)
    · exact ⟨row, Or.inl hrow, rfl⟩
    · exact ⟨.missing, Or.inr ⟨hnil, rfl⟩, hmissing⟩
  · rintro ⟨row, hrow | ⟨hnil, rfl⟩, rfl⟩
    · exact Or.inl ⟨_, ⟨row, hrow, rfl⟩, rfl⟩
    · exact Or.inr ⟨hnil, hmissing⟩

/-- A key is that of some row, whatever stands under the aliases that the join does not read. -/
theorem exists_row_of_mem_keysOf {d : Dimension} {j : Join} {σ₀ : Scope} (hleft : j.kind = .left)
    (c : Column) {k : String}
    (hvalues : (j.partners store σ₀).map (fun row => (row.cell c).toText?) = d.values store r)
    (hk : k ∈ d.keysOf store r) : ∃ row, ∀ σ : Scope, Scope.Agree j.names σ σ₀ →
      σ.row j.source.name = row → j.Fits store σ ∧
        (((Expr.column j.source.name c).value σ).toText?).getD noneKey = k := by
  obtain ⟨row, hrow, htext⟩ := (mem_keysOf_iff_choices hleft c hvalues k).mp hk
  refine ⟨row, fun σ hagree hσrow => ⟨?_, ?_⟩⟩
  · unfold Join.Fits
    rw [hσrow, Join.choices_congr hagree]
    exact hrow
  · rw [Expr.value_column hσrow]
    exact htext

section

variable (hnode : σ.row .node = .node r)

include hnode

theorem toText?_value_column (c : NodeColumn) :
    ((Expr.cast (nodeColumn c) .text).value σ).toText? = (r.cell c).toText? := by
  rw [← value_nodeColumn hnode]
  exact Datum.toText?_cast_text _

theorem values_custom {name field : String} {a : Alias} (ha : a ≠ .node)
    (hroute : Route.ofField name = .ok (.custom field)) :
    ((fieldJoin a field).partners store σ).map (fun row => (row.cell .fieldValue).toText?)
      = (Dimension.field name).values store r := by
  rw [partners_fieldJoin hnode ha, List.map_map, values_of_custom hroute]
  exact List.map_congr_left fun f _ => Datum.toText?_ofText? f.value

theorem values_parentTags {name : String} {a : Alias} (ha : a ≠ .parent) (hids : store.UniqueIds)
    (hparent : parentJoin.Fits store σ) (hroute : Route.ofField name = .ok .parentTags) :
    ((parentTagJoin a).partners store σ).map (fun row => (row.cell .tagName).toText?)
      = (Dimension.field name).values store r := by
  have hid : (σ.row .parent).cell (.node .id)
      = .ofText? ((store.parent? r).bind NodeRow.id) := by
    rw [cell_parent hnode hids hparent]
    cases store.parent? r <;> rfl
  rw [partners_parentTagJoin ha hid, List.map_map, values_of_parentTags hroute,
    store.view_parentTags r, Store.tagsOf, List.map_map]
  rfl

end

/-- **Keys of joined rows**: where the joins of a dimension fit, the rows at hand have one of the
keys of the node. -/
theorem Becomes.text_mem {place : Nat} {d : Dimension} {key : GroupKey} (hids : store.UniqueIds)
    (h : d.Becomes place key) (hnode : σ.row .node = .node r)
    (hfits : ∀ j ∈ key.joins, j.Fits store σ) : key.text σ ∈ d.keysOf store r := by
  cases h with
  | period p c =>
    rw [GroupKey.text_of, p.toText?_value_expr hnode]
    exact getD_mem_keysOf (List.mem_singleton_self _)
  | @column name c hroute =>
    rw [GroupKey.text_of, toText?_value_column hnode]
    apply getD_mem_keysOf
    rw [values_of_column hroute]
    exact List.mem_singleton_self _
  | @parentName name hroute =>
    have hparent : parentJoin.Fits store σ := hfits _ (List.mem_singleton_self _)
    have hvalue : (Expr.column .parent (.node .name)).value σ = (store.view r).parentName :=
      cell_parent hnode hids hparent .name
    rw [GroupKey.text_of, hvalue]
    apply getD_mem_keysOf
    rw [values_of_parentName hroute]
    exact List.mem_singleton_self _
  | @parentTags name hroute =>
    have hparent : parentJoin.Fits store σ := hfits _ List.mem_cons_self
    have hrow : (parentTagJoin (.dimension place)).Fits store σ :=
      hfits _ (List.mem_cons_of_mem _ (List.mem_singleton_self _))
    have hvalues : ((parentTagJoin (.dimension place)).partners store σ).map
        (fun row => (row.cell .tagName).toText?) = (Dimension.field name).values store r :=
      values_parentTags hnode (by simp) hids hparent hroute
    rw [GroupKey.text_of, mem_keysOf_iff_choices rfl .tagName hvalues]
    exact ⟨_, hrow, rfl⟩
  | @custom name field hroute =>
    have hrow : (fieldJoin (.dimension place) field).Fits store σ :=
      hfits _ (List.mem_singleton_self _)
    have hvalues : ((fieldJoin (.dimension place) field).partners store σ).map
        (fun row => (row.cell .fieldValue).toText?) = (Dimension.field name).values store r :=
      values_custom hnode (by simp) hroute
    rw [GroupKey.text_of, mem_keysOf_iff_choices rfl .fieldValue hvalues]
    exact ⟨_, hrow, rfl⟩

end Dimension

/-! ### Rows for given keys -/

/-- The row of the parent, or nulls without one. -/
def Store.parentRow (store : Store) (r : NodeRow) : Row :=
  ((store.parent? r).map Row.node).getD .missing

theorem fits_parentJoin_iff (hids : store.UniqueIds) (hnode : σ.row .node = .node r) :
    parentJoin.Fits store σ ↔ σ.row .parent = store.parentRow r :=
  mem_choices_parentJoin hnode hids _

/-- The row of the parent, and rows for the dimensions. -/
def groupRow (store : Store) (r : NodeRow) (rows : Nat → Row) : Alias → Row
  | .parent => store.parentRow r
  | .dimension k => rows k
  | _ => .missing

namespace Dimension

variable {place : Nat} {d : Dimension} {key : GroupKey} {k : String}

theorem Becomes.name_of_mem (h : d.Becomes place key) :
    ∀ j ∈ key.joins, j.source.name = .parent ∨ j.source.name = .dimension place := by
  cases h with
  | period p c => exact fun j hj => absurd hj List.not_mem_nil
  | column c hroute => exact fun j hj => absurd hj List.not_mem_nil
  | parentName hroute => exact List.forall_mem_singleton.mpr (Or.inl rfl)
  | parentTags hroute =>
    exact List.forall_mem_cons.mpr ⟨Or.inl rfl, List.forall_mem_singleton.mpr (Or.inr rfl)⟩
  | custom field hroute => exact List.forall_mem_singleton.mpr (Or.inr rfl)

/-- Rows with which a dimension has a given key of the node. -/
def Becomes.Attains (store : Store) (r : NodeRow) (place : Nat) (key : GroupKey) (k : String)
    (row : Row) : Prop :=
  ∀ (rows : Nat → Row) (σ : Scope), rows place = row → σ.row .node = .node r →
    (∀ j ∈ key.joins, σ.row j.source.name = groupRow store r rows j.source.name) →
    (∀ j ∈ key.joins, j.Fits store σ) ∧ key.text σ = k

theorem attained_parentTags (hids : store.UniqueIds) {name : String}
    (hroute : Route.ofField name = .ok .parentTags) (hk : k ∈ (field name).keysOf store r) :
    ∃ row, Becomes.Attains store r place
      (.of (.column (.dimension place) .tagName) [parentJoin, parentTagJoin (.dimension place)])
      k row := by
  -- The row is picked in the smallest scope; others offer the same rows.
  set σ₀ : Scope := [(.parent, store.parentRow r), (.node, .node r)]
  have hvalues : ((parentTagJoin (.dimension place)).partners store σ₀).map
      (fun row => (row.cell .tagName).toText?) = (Dimension.field name).values store r :=
    values_parentTags rfl (by simp) hids ((fits_parentJoin_iff hids rfl).mpr rfl) hroute
  obtain ⟨row, hrow⟩ := exists_row_of_mem_keysOf rfl .tagName hvalues hk
  refine ⟨row, fun rows σ hplace hnode hrows => ?_⟩
  have hparent : σ.row .parent = store.parentRow r := hrows _ List.mem_cons_self
  have hagree : Scope.Agree (parentTagJoin (.dimension place)).names σ σ₀ := by
    rw [Join.names_parentTagJoin (by simp)]
    exact List.forall_mem_singleton.mpr hparent
  obtain ⟨hfits, htext⟩ := hrow σ hagree
    ((hrows _ (List.mem_cons_of_mem _ (List.mem_singleton_self _))).trans hplace)
  rw [GroupKey.text_of]
  refine ⟨List.forall_mem_cons.mpr ⟨?_, List.forall_mem_singleton.mpr hfits⟩, htext⟩
  exact (fits_parentJoin_iff hids hnode).mpr hparent

theorem attained_custom {name custom : String} (hroute : Route.ofField name = .ok (.custom custom))
    (hk : k ∈ (field name).keysOf store r) :
    ∃ row, Becomes.Attains store r place
      (.of (.column (.dimension place) .fieldValue) [fieldJoin (.dimension place) custom])
      k row := by
  set σ₀ : Scope := [(.node, .node r)]
  have hvalues : ((fieldJoin (.dimension place) custom).partners store σ₀).map
      (fun row => (row.cell .fieldValue).toText?) = (Dimension.field name).values store r :=
    values_custom rfl (by simp) hroute
  obtain ⟨row, hrow⟩ := exists_row_of_mem_keysOf rfl .fieldValue hvalues hk
  refine ⟨row, fun rows σ hplace hnode hrows => ?_⟩
  have hagree : Scope.Agree (fieldJoin (.dimension place) custom).names σ σ₀ := by
    rw [Join.names_fieldJoin (by simp)]
    exact List.forall_mem_singleton.mpr hnode
  obtain ⟨hfits, htext⟩ := hrow σ hagree ((hrows _ (List.mem_singleton_self _)).trans hplace)
  rw [GroupKey.text_of]
  exact ⟨List.forall_mem_singleton.mpr hfits, htext⟩

/-- Every key of a node is that of some row. -/
theorem Becomes.attained (hids : store.UniqueIds) (h : d.Becomes place key)
    (hk : k ∈ d.keysOf store r) : ∃ row, Becomes.Attains store r place key k row := by
  -- Without a row of its own a dimension has one key only.
  have hsingle : ∀ {v : Option String}, d.values store r = [v] → v.getD noneKey = k := by
    intro v hvalues
    have hkeys := mem_keysOf.mp hk
    rw [hvalues] at hkeys
    simpa using hkeys
  cases h with
  | period p c =>
    refine ⟨.missing, fun rows σ _ hnode _ => ⟨fun j hj => absurd hj List.not_mem_nil, ?_⟩⟩
    rw [GroupKey.text_of, p.toText?_value_expr hnode]
    exact hsingle rfl
  | @column name c hroute =>
    refine ⟨.missing, fun rows σ _ hnode _ => ⟨fun j hj => absurd hj List.not_mem_nil, ?_⟩⟩
    rw [GroupKey.text_of, toText?_value_column hnode]
    exact hsingle (values_of_column hroute)
  | @parentName name hroute =>
    refine ⟨.missing, fun rows σ _ hnode hrows => ?_⟩
    have hparent : parentJoin.Fits store σ :=
      (fits_parentJoin_iff hids hnode).mpr (hrows _ (List.mem_singleton_self _))
    have hvalue : (Expr.column .parent (.node .name)).value σ = (store.view r).parentName :=
      cell_parent hnode hids hparent .name
    refine ⟨List.forall_mem_singleton.mpr hparent, ?_⟩
    rw [GroupKey.text_of, hvalue]
    exact hsingle (values_of_parentName hroute)
  | parentTags hroute => exact attained_parentTags hids hroute hk
  | custom field hroute => exact attained_custom hroute hk

/-! ### Keys along all dimensions -/

variable {ds : List Dimension} {keys : List GroupKey} {ks : List String}

theorem BecomeAll.texts_mem (hids : store.UniqueIds) (h : BecomeAll place ds keys)
    (hnode : σ.row .node = .node r) (hfits : ∀ key ∈ keys, ∀ j ∈ key.joins, j.Fits store σ) :
    keys.map (·.text σ) ∈ keyLists store r ds := by
  induction h with
  | nil => exact mem_keyLists_nil.mpr rfl
  | cons hkey _ ih =>
    rw [List.forall_mem_cons] at hfits
    exact mem_keyLists_cons.mpr
      ⟨_, hkey.text_mem hids hnode hfits.1, _, ih hfits.2, rfl⟩

theorem BecomeAll.name_of_mem (h : BecomeAll place ds keys) : ∀ key ∈ keys, ∀ j ∈ key.joins,
    j.source.name = .parent ∨ ∃ n, place ≤ n ∧ j.source.name = .dimension n := by
  induction h with
  | nil => exact fun key hkey => absurd hkey List.not_mem_nil
  | @cons place d ds key keys hkey _ ih =>
    refine List.forall_mem_cons.mpr ⟨fun j hj => ?_, fun key' hkey' j hj => ?_⟩
    · rcases hkey.name_of_mem j hj with hname | hname
      · exact Or.inl hname
      · exact Or.inr ⟨place, le_refl _, hname⟩
    · rcases ih key' hkey' j hj with hname | ⟨n, hle, hname⟩
      · exact Or.inl hname
      · exact Or.inr ⟨n, by omega, hname⟩

/-- Every combination of keys of a node is that of some rows, one for each dimension. -/
theorem BecomeAll.attained (hids : store.UniqueIds) (h : BecomeAll place ds keys)
    (hks : ks ∈ keyLists store r ds) : ∃ rows : Nat → Row, ∀ σ : Scope,
      σ.row .node = .node r →
      (∀ key ∈ keys, ∀ j ∈ key.joins, σ.row j.source.name = groupRow store r rows j.source.name) →
      (∀ key ∈ keys, ∀ j ∈ key.joins, j.Fits store σ) ∧ keys.map (·.text σ) = ks := by
  induction h generalizing ks with
  | nil =>
    refine ⟨fun _ => .missing, fun σ _ _ => ⟨fun key hkey => absurd hkey List.not_mem_nil, ?_⟩⟩
    exact (mem_keyLists_nil.mp hks).symm
  | @cons place d ds key keys hkey hkeys ih =>
    obtain ⟨k, hk, ks', hks', rfl⟩ := mem_keyLists_cons.mp hks
    obtain ⟨row, hrow⟩ := hkey.attained hids hk
    obtain ⟨rows, hrows⟩ := ih hks'
    -- The rows of the other dimensions stand in later places.
    refine ⟨fun n => if n = place then row else rows n, fun σ hnode hσ => ?_⟩
    rw [List.forall_mem_cons] at hσ
    obtain ⟨hfits, htext⟩ := hrow _ σ (if_pos rfl) hnode hσ.1
    have hlater : ∀ key ∈ keys, ∀ j ∈ key.joins,
        σ.row j.source.name = groupRow store r rows j.source.name := by
      intro key' hkey' j hj
      rw [hσ.2 key' hkey' j hj]
      rcases hkeys.name_of_mem key' hkey' j hj with hname | ⟨n, hle, hname⟩
      · rw [hname]
        rfl
      · rw [hname]
        exact if_neg (by omega)
    obtain ⟨hfits', htexts⟩ := hrows σ hnode hlater
    refine ⟨List.forall_mem_cons.mpr ⟨hfits, hfits'⟩, ?_⟩
    rw [List.map_cons, htext, htexts]

end Dimension

end GraphIndex
