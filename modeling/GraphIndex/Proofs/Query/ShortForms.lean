import GraphIndex.Proofs.Plan.Matching
import GraphIndex.Proofs.Query.ShortValues

/-!
# What short forms of conditions mean

`Shorthand.Holds` reads conditions in their short form without building a tree: all members of an
object must hold, and of the items of a list all or some. `Shorthand.allTrue_iff_holds` says that
the trees made from an object without empty parts mean what the object says, whatever their clauses
mean, and in particular which stored nodes the statement selects that they are compiled to.

An item of a list that is null is passed over. As conditions of its own it asks for nothing, and
still no list holds on its account (`Shorthand.not_allTrue_null_item`).
-/

namespace GraphIndex

/-! ### Values without empty parts -/

namespace Json

mutual

/-- Whether no list and no object of a value is empty. -/
def isFull : Json → Bool
  | .array items => !items.isEmpty && itemsFull items
  | .object members => !members.isEmpty && membersFull members
  | _ => true

def itemsFull : List Json → Bool
  | [] => true
  | j :: rest => j.isFull && itemsFull rest

/-- Whether this is so of every value of an object. -/
def membersFull : List (String × Json) → Bool
  | [] => true
  | (_, j) :: rest => j.isFull && membersFull rest

end

theorem itemsFull_iff {items : List Json} :
    itemsFull items = true ↔ ∀ j ∈ items, j.isFull = true := by
  induction items with
  | nil => simp [itemsFull]
  | cons j rest ih => rw [itemsFull, Bool.and_eq_true, ih, List.forall_mem_cons]

theorem isFull_of_mem {items : List Json} {j : Json} (h : (Json.array items).isFull = true)
    (hj : j ∈ items) : j.isFull = true :=
  itemsFull_iff.mp (Bool.and_eq_true_iff.mp h).2 j hj

/-- Whether a value is null. -/
def isNull : Json → Bool
  | .null => true
  | _ => false

/-- Items are read one by one. -/
theorem of_decodeItems {α : Type} {item : Json → Except DecodeError α} {items : List Json}
    {as : List α} (h : decodeItems item items = .ok as) :
    as.length = items.length ∧ ∀ a ∈ as, ∃ j ∈ items, item j = .ok a := by
  induction items generalizing as with
  | nil =>
    obtain rfl := Except.ok.inj h
    exact ⟨rfl, fun a ha => absurd ha List.not_mem_nil⟩
  | cons j items ih =>
    rw [decodeItems, bind_eq_ok_iff] at h
    obtain ⟨a, ha, h⟩ := h
    obtain ⟨rest, hrest, hpure⟩ := bind_eq_ok_iff.mp h
    obtain rfl := Except.ok.inj hpure
    obtain ⟨hlength, hmem⟩ := ih hrest
    refine ⟨by rw [List.length_cons, List.length_cons, hlength], List.forall_mem_cons.mpr ⟨?_, ?_⟩⟩
    · exact ⟨j, List.mem_cons_self, ha⟩
    · intro b hb
      obtain ⟨i, hi, hitem⟩ := hmem b hb
      exact ⟨i, List.mem_cons_of_mem _ hi, hitem⟩

end Json

namespace Entry

variable {e : Entry} {es : List Entry}

theorem eq_group_of_groupOf? {kind : Json} {members : Option (List Entry)} {negated : Option Json}
    (h : groupOf? kind members negated = some e) :
    ∃ k es n, members = some es ∧ e = group k es n := by
  obtain ⟨k, -, h⟩ := Option.bind_eq_some_iff.mp h
  obtain ⟨es, hes, h⟩ := Option.bind_eq_some_iff.mp h
  obtain ⟨n, -, h⟩ := Option.bind_eq_some_iff.mp h
  exact ⟨k, es, n, hes, (Option.some.inj h).symm⟩

theorem isFull_of_clause {c : Option Clause} (h : c.map clause = some e) : e.isFull = true := by
  obtain ⟨c, -, rfl⟩ := Option.map_eq_some_iff.mp h
  rfl

theorem isFull_of_groupOf? {kind : Json} {members : Option (List Entry)} {negated : Option Json}
    (h : groupOf? kind members negated = some e)
    (hmembers : ∀ es, members = some es → es ≠ [] ∧ ∀ e ∈ es, e.isFull = true) :
    e.isFull = true := by
  obtain ⟨k, es, n, hes, rfl⟩ := eq_group_of_groupOf? h
  exact isFull_group_iff.mpr (hmembers es hes)

mutual

/-- Conditions in full that have no empty parts have no empty groups. -/
theorem isFull_of_ofJson? : ∀ {j : Json} {e : Entry}, ofJson? j = some e → j.isFull = true →
    e.isFull = true
  | .object members, e, h, hfull => by
    rw [Json.isFull, Bool.and_eq_true] at hfull
    rw [ofJson?] at h
    rcases (Option.orElse_eq_some _ _ _).mp h with hgroup | ⟨-, hclause⟩
    · obtain ⟨o, -, hgroup⟩ := Option.bind_eq_some_iff.mp hgroup
      obtain ⟨kind, -, hgroup⟩ := Option.bind_eq_some_iff.mp hgroup
      obtain ⟨o', -, hgroup⟩ := Option.bind_eq_some_iff.mp hgroup
      obtain ⟨_, -, hgroup⟩ := Option.bind_eq_some_iff.mp hgroup
      obtain ⟨negated, -, hgroup⟩ := Option.bind_eq_some_iff.mp hgroup
      exact isFull_of_groupOf? hgroup fun es hes => isFull_of_membersOf? hes hfull.2
    · exact isFull_of_clause hclause
  | .array [kind, members], e, h, hfull => by
    rw [ofJson?] at h
    rcases (Option.orElse_eq_some _ _ _).mp h with hgroup | ⟨-, hclause⟩
    · exact isFull_of_groupOf? hgroup fun es hes =>
        isFull_of_listOf? hes (Json.isFull_of_mem hfull (List.mem_cons_of_mem _ List.mem_cons_self))
    · exact isFull_of_clause hclause
  | .array [kind, members, negated], e, h, hfull => by
    rw [ofJson?] at h
    rcases (Option.orElse_eq_some _ _ _).mp h with hgroup | ⟨-, hclause⟩
    · exact isFull_of_groupOf? hgroup fun es hes =>
        isFull_of_listOf? hes (Json.isFull_of_mem hfull (List.mem_cons_of_mem _ List.mem_cons_self))
    · exact isFull_of_clause hclause
  | .array (kind :: members :: negated :: more :: rest), e, h, hfull => by
    rw [ofJson?] at h
    · rcases (Option.orElse_eq_some _ _ _).mp h with hgroup | ⟨-, hclause⟩
      · exact absurd hgroup (by rintro ⟨⟩)
      · exact isFull_of_clause hclause
    · exact fun hrest => absurd hrest (by rintro ⟨⟩)
    · exact fun _ hrest => absurd hrest (by rintro ⟨⟩)
  | .array [], _, h, _ | .array [_], _, h, _ | .null, _, h, _ | .bool _, _, h, _
  | .number _, _, h, _ | .text _, _, h, _ | .unreadable, _, h, _ => by
    exact absurd h (by rintro ⟨⟩)

theorem isFull_of_membersOf? : ∀ {members : List (String × Json)} {es : List Entry},
    membersOf? members = some es → Json.membersFull members = true →
      es ≠ [] ∧ ∀ e ∈ es, e.isFull = true
  | [], _, h, _ => by exact absurd h (by rintro ⟨⟩)
  | (k, j) :: rest, es, h, hfull => by
    rw [Json.membersFull, Bool.and_eq_true] at hfull
    rw [membersOf?] at h
    by_cases hk : k = "clauses"
    · rw [if_pos hk] at h
      exact isFull_of_listOf? h hfull.1
    · rw [if_neg hk] at h
      exact isFull_of_membersOf? h hfull.2

theorem isFull_of_listOf? : ∀ {j : Json} {es : List Entry}, listOf? j = some es →
    j.isFull = true → es ≠ [] ∧ ∀ e ∈ es, e.isFull = true
  | .array items, es, h, hfull => by
    rw [Json.isFull, Bool.and_eq_true] at hfull
    obtain ⟨hlength, hes⟩ := isFull_of_ofItems? h hfull.2
    refine ⟨?_, hes⟩
    rintro rfl
    rw [List.eq_nil_of_length_eq_zero hlength.symm] at hfull
    exact absurd hfull.1 (by decide)
  | .null, _, h, _ | .bool _, _, h, _ | .number _, _, h, _ | .text _, _, h, _
  | .object _, _, h, _ | .unreadable, _, h, _ => by exact absurd h (by rintro ⟨⟩)

theorem isFull_of_ofItems? : ∀ {items : List Json} {es : List Entry}, ofItems? items = some es →
    Json.itemsFull items = true → es.length = items.length ∧ ∀ e ∈ es, e.isFull = true
  | [], es, h, _ => by
    obtain rfl := Option.some.inj h
    exact ⟨rfl, fun e he => absurd he List.not_mem_nil⟩
  | j :: rest, es, h, hfull => by
    rw [Json.itemsFull, Bool.and_eq_true] at hfull
    rw [ofItems?] at h
    obtain ⟨e, he, h⟩ := Option.bind_eq_some_iff.mp h
    obtain ⟨later, hlater, h⟩ := Option.bind_eq_some_iff.mp h
    obtain rfl := Option.some.inj h
    obtain ⟨hlength, hrest⟩ := isFull_of_ofItems? hlater hfull.2
    exact ⟨by rw [List.length_cons, List.length_cons, hlength],
      List.forall_mem_cons.mpr ⟨isFull_of_ofJson? he hfull.1, hrest⟩⟩

end

theorem isFull_of_decode {j : Json} (h : decode j = .ok e) (hfull : j.isFull = true) :
    e.isFull = true := by
  unfold decode at h
  split at h
  · exact absurd h (by rintro ⟨⟩)
  · cases he : ofJson? j with
    | none =>
      rw [he] at h
      exact absurd h (by rintro ⟨⟩)
    | some e' =>
      rw [he] at h
      obtain rfl := Except.ok.inj h
      exact isFull_of_ofJson? he hfull

end Entry

namespace Shorthand

/-! ### Objects and lists -/

variable (t : ClauseTruth)

mutual

/-- Whether conditions hold. Null asks for nothing; a list gives conditions in full. -/
def Holds : Json → Prop
  | .null => True
  | .array items => ∃ es, Json.decodeItems Entry.decode items = .ok es ∧ Entry.AllTrue t es
  | .object members => MembersHold members
  | _ => False

/-- Whether all members of an object hold. -/
def MembersHold : List (String × Json) → Prop
  | [] => True
  | (key, value) :: rest =>
    (match key with
      | "and" => ListHolds .all value
      | "or" => ListHolds .any value
      | field => FieldHolds t field value) ∧ MembersHold rest

def ListHolds (kind : Connective) : Json → Prop
  | .array items => ItemsHold kind items
  | _ => False

/-- Whether all items of a list hold, or some item does; null is passed over. -/
def ItemsHold (kind : Connective) : List Json → Prop
  | [] => kind = .all
  | j :: rest =>
    match kind with
    | .all => Holds j ∧ ItemsHold kind rest
    | .any => (j ≠ .null ∧ Holds j) ∨ ItemsHold kind rest

end

/-- Under `and` every item must hold. -/
theorem itemsHold_all_iff {items : List Json} :
    ItemsHold t .all items ↔ ∀ j ∈ items, Holds t j := by
  induction items with
  | nil => exact ⟨fun _ j hj => absurd hj List.not_mem_nil, fun _ => rfl⟩
  | cons j rest ih => rw [ItemsHold, ih, List.forall_mem_cons]

/-- Under `or` some item must hold; an item that is null does not. -/
theorem itemsHold_any_iff {items : List Json} :
    ItemsHold t .any items ↔ ∃ j ∈ items, j ≠ .null ∧ Holds t j := by
  induction items with
  | nil =>
    rw [ItemsHold]
    exact ⟨fun h => absurd h (by decide), fun ⟨j, hj, _⟩ => absurd hj List.not_mem_nil⟩
  | cons j rest ih => rw [ItemsHold, ih, List.exists_mem_cons_iff]

variable {t} {field : String}

theorem connectiveOf?_eq_some_iff {key : String} {kind : Connective} :
    connectiveOf? key = some kind ↔ key = "and" ∧ kind = .all ∨ key = "or" ∧ kind = .any := by
  unfold connectiveOf?
  split
  · simp [eq_comm]
  · simp [eq_comm]
  · next hand hor =>
    refine ⟨fun h => absurd h (by rintro ⟨⟩), ?_⟩
    rintro (⟨hkey, -⟩ | ⟨hkey, -⟩)
    · exact absurd hkey hand
    · exact absurd hkey hor

theorem membersHold_cons_of_connective {key : String} {kind : Connective} {value : Json}
    {rest : List (String × Json)} (hkind : connectiveOf? key = some kind) :
    MembersHold t ((key, value) :: rest) ↔ ListHolds t kind value ∧ MembersHold t rest := by
  rcases connectiveOf?_eq_some_iff.mp hkind with ⟨rfl, rfl⟩ | ⟨rfl, rfl⟩ <;> rw [MembersHold]

theorem membersHold_cons_of_field {key : String} {value : Json} {rest : List (String × Json)}
    (hkind : connectiveOf? key = none) :
    MembersHold t ((key, value) :: rest) ↔ FieldHolds t key value ∧ MembersHold t rest := by
  -- The third equation of the reading is for the keys that are no connectives.
  rw [MembersHold]
  · rintro rfl
    exact absurd hkind (by decide)
  · rintro rfl
    exact absurd hkind (by decide)

theorem memberEntries_cons_eq_ok_iff {key : String} {value : Json} {rest : List (String × Json)}
    {es : List Entry} : memberEntries ((key, value) :: rest) = .ok es ↔ ∃ fs later,
      (match connectiveOf? key with
        | some kind => groupEntries key kind value
        | none => fieldEntries key value) = .ok fs
      ∧ memberEntries rest = .ok later ∧ es = fs ++ later := by
  have hpure : ∀ fs later, pure (fs ++ later) = (.ok es : Except QueryError _) ↔ es = fs ++ later :=
    fun fs later => ⟨fun h => (Except.ok.inj h).symm, fun h => congrArg Except.ok h.symm⟩
  rw [memberEntries]
  cases connectiveOf? key with
  | none => simp only [bind_eq_ok_iff, hpure, exists_and_left]
  | some kind => simp only [bind_eq_ok_iff, hpure, exists_and_left]

theorem nestedEntries_cons_eq_ok_iff {j : Json} {rest : List Json} {es : List Entry} :
    nestedEntries (j :: rest) = .ok es ↔ ∃ fs later,
      entries j = .ok fs ∧ nestedEntries rest = .ok later ∧ es = joinNested fs ++ later := by
  have hpure : ∀ fs later, pure (joinNested fs ++ later) = (.ok es : Except QueryError _) ↔
      es = joinNested fs ++ later :=
    fun fs later => ⟨fun h => (Except.ok.inj h).symm, fun h => congrArg Except.ok h.symm⟩
  rw [nestedEntries]
  simp only [bind_eq_ok_iff, hpure, exists_and_left]

theorem explicitEntries_eq_ok_iff {items : List Json} {es : List Entry} :
    explicitEntries items = .ok es ↔ Json.decodeItems Entry.decode items = .ok es := by
  unfold explicitEntries
  cases Json.decodeItems Entry.decode items with
  | error fault => exact ⟨fun h => absurd h (by rintro ⟨⟩), fun h => absurd h (by rintro ⟨⟩)⟩
  | ok fs => exact ⟨fun h => congrArg _ (Except.ok.inj h), fun h => congrArg _ (Except.ok.inj h)⟩

/-! #### Lists -/

/-- No entries of a value that asks for something are left out. -/
theorem ne_nil_of_fieldEntries {j : Json} {es : List Entry} (h : fieldEntries field j = .ok es)
    (hfull : j.isFull = true) : es ≠ [] := by
  cases j with
  | array items =>
    obtain ⟨fs, -, hpure⟩ := bind_eq_ok_iff.mp h
    obtain rfl := Except.ok.inj hpure
    exact List.cons_ne_nil _ _
  | object members =>
    cases members with
    | nil => exact absurd hfull (by decide)
    | cons m rest =>
      obtain ⟨e, later, -, -, rfl⟩ := operatorEntries_cons_eq_ok_iff.mp h
      exact List.cons_ne_nil _ _
  | _ =>
    obtain rfl := Except.ok.inj h
    exact List.cons_ne_nil _ _

theorem groupEntries_eq_ok_iff {key : String} {kind : Connective} {j : Json} {es : List Entry} :
    groupEntries key kind j = .ok es ↔ ∃ items fs, j = .array items ∧ nestedEntries items = .ok fs
      ∧ es = [.group kind fs false] := by
  cases j with
  | array items =>
    rw [groupEntries, bind_eq_ok_iff]
    constructor
    · rintro ⟨fs, hfs, hpure⟩
      exact ⟨items, fs, rfl, hfs, (Except.ok.inj hpure).symm⟩
    · rintro ⟨items', fs, hitems, hfs, rfl⟩
      obtain rfl := Json.array.inj hitems
      exact ⟨fs, hfs, rfl⟩
  | _ => exact ⟨fun h => absurd h (by rintro ⟨⟩), fun ⟨_, _, h, _⟩ => absurd h (by rintro ⟨⟩)⟩

theorem ne_nil_of_entries {j : Json} {es : List Entry} (h : entries j = .ok es)
    (hfull : j.isFull = true) (hnull : j ≠ .null) : es ≠ [] := by
  cases j with
  | null => exact absurd rfl hnull
  | array items =>
    obtain ⟨hlength, -⟩ := Json.of_decodeItems (explicitEntries_eq_ok_iff.mp h)
    rintro rfl
    rw [List.eq_nil_of_length_eq_zero hlength.symm] at hfull
    exact absurd hfull (by decide)
  | object members =>
    cases members with
    | nil => exact absurd hfull (by decide)
    | cons m rest =>
      obtain ⟨fs, later, hfs, -, rfl⟩ := memberEntries_cons_eq_ok_iff.mp h
      have hvalue : m.2.isFull = true := (Bool.and_eq_true_iff.mp hfull).1
      have hne : fs ≠ [] := by
        cases hkind : connectiveOf? m.1 with
        | none =>
          rw [hkind] at hfs
          exact ne_nil_of_fieldEntries hfs hvalue
        | some kind =>
          rw [hkind] at hfs
          obtain ⟨items, fs', -, -, rfl⟩ := groupEntries_eq_ok_iff.mp hfs
          exact List.cons_ne_nil _ _
      exact List.append_ne_nil_of_left_ne_nil hne later
  | _ => exact absurd h (by rintro ⟨⟩)

theorem joinNested_of_ne_nil {es : List Entry} (h : es ≠ []) :
    ∃ e, joinNested es = [e] ∧ ∀ t, e.truthBy t = some true ↔ Entry.AllTrue t es := by
  match es with
  | [] => exact absurd rfl h
  | [e] => exact ⟨e, rfl, fun t => (Entry.allTrue_singleton_iff t).symm⟩
  | e :: e' :: rest => exact ⟨_, rfl, fun t => Entry.truthBy_all_iff t _⟩

/-- One more item in a list of conditions. Null adds no tree, any other item adds one. -/
theorem truthBy_group_joinNested {kind : Connective} {j : Json} {rest : List Json}
    {fs later : List Entry} (hnull : j = .null → fs = []) (hne : j ≠ .null → fs ≠ [])
    (hj : Entry.AllTrue t fs ↔ Holds t j)
    (hlater : (Entry.group kind later false).truthBy t = some true ↔ ItemsHold t kind rest) :
    (Entry.group kind (joinNested fs ++ later) false).truthBy t = some true ↔
      ItemsHold t kind (j :: rest) := by
  -- An item that is null gives no entry and holds by itself, but it does not make a disjunction
  -- true.
  by_cases hj' : j = .null
  · obtain rfl := hnull hj'
    subst hj'
    show (Entry.group kind later false).truthBy t = some true ↔ _
    rw [hlater]
    cases kind with
    | all => rw [ItemsHold]; exact (and_iff_right trivial).symm
    | any =>
      rw [ItemsHold]
      exact (or_iff_right fun h => h.1 rfl).symm
  · obtain ⟨e, hjoin, he⟩ := joinNested_of_ne_nil (hne hj')
    rw [hjoin, List.singleton_append]
    cases kind with
    | all =>
      rw [Entry.truthBy_all_iff] at hlater ⊢
      rw [Entry.allTrue_cons_iff, he t, hj, hlater, ItemsHold]
    | any =>
      rw [Entry.truthBy_any_iff] at hlater ⊢
      rw [List.exists_mem_cons_iff, he t, hj, hlater, ItemsHold]
      exact or_congr_left (and_iff_right hj').symm

mutual

/-- The trees of conditions are true together if the conditions hold. -/
theorem allTrue_of_entries : ∀ {j : Json} {es : List Entry}, entries j = .ok es →
    j.isFull = true → (Entry.AllTrue t es ↔ Holds t j)
  | .null, es, h, _ => by
    obtain rfl := Except.ok.inj h
    rw [Holds]
    exact ⟨fun _ => trivial, fun _ e he => absurd he List.not_mem_nil⟩
  | .array items, es, h, _ => by
    have hes := explicitEntries_eq_ok_iff.mp h
    rw [Holds]
    constructor
    · exact fun htrue => ⟨es, hes, htrue⟩
    · rintro ⟨es', hes', htrue⟩
      exact Except.ok.inj (hes'.symm.trans hes) ▸ htrue
  | .object members, es, h, hfull => by
    rw [Json.isFull, Bool.and_eq_true] at hfull
    rw [Holds]
    exact allTrue_of_memberEntries h hfull.2
  | .bool _, _, h, _ | .number _, _, h, _ | .text _, _, h, _ | .unreadable, _, h, _ => by
    exact absurd h (by rintro ⟨⟩)

theorem allTrue_of_memberEntries : ∀ {members : List (String × Json)} {es : List Entry},
    memberEntries members = .ok es → Json.membersFull members = true →
      (Entry.AllTrue t es ↔ MembersHold t members)
  | [], es, h, _ => by
    obtain rfl := Except.ok.inj h
    rw [MembersHold]
    exact ⟨fun _ => trivial, fun _ e he => absurd he List.not_mem_nil⟩
  | (key, value) :: rest, es, h, hfull => by
    obtain ⟨fs, later, hfs, hlater, rfl⟩ := memberEntries_cons_eq_ok_iff.mp h
    rw [Json.membersFull, Bool.and_eq_true] at hfull
    have hrest := allTrue_of_memberEntries hlater hfull.2
    rw [Entry.allTrue_append_iff, hrest]
    cases hkind : connectiveOf? key with
    | none =>
      rw [hkind] at hfs
      rw [membersHold_cons_of_field hkind, allTrue_of_fieldEntries hfs]
    | some kind =>
      rw [hkind] at hfs
      rw [membersHold_cons_of_connective hkind, allTrue_of_groupEntries hfs hfull.1]

theorem allTrue_of_groupEntries : ∀ {key : String} {kind : Connective} {j : Json}
    {es : List Entry}, groupEntries key kind j = .ok es → j.isFull = true →
      (Entry.AllTrue t es ↔ ListHolds t kind j)
  | _, kind, .array items, es, h, hfull => by
    obtain ⟨fs, hfs, hpure⟩ := bind_eq_ok_iff.mp h
    obtain rfl := Except.ok.inj hpure
    rw [Json.isFull, Bool.and_eq_true] at hfull
    rw [ListHolds, Entry.allTrue_singleton_iff]
    exact truthBy_of_nestedEntries hfs hfull.2
  | _, _, .null, _, h, _ | _, _, .bool _, _, h, _ | _, _, .number _, _, h, _
  | _, _, .text _, _, h, _ | _, _, .object _, _, h, _ | _, _, .unreadable, _, h, _ => by
    exact absurd h (by rintro ⟨⟩)

theorem truthBy_of_nestedEntries : ∀ {kind : Connective} {items : List Json} {es : List Entry},
    nestedEntries items = .ok es → Json.itemsFull items = true →
      ((Entry.group kind es false).truthBy t = some true ↔ ItemsHold t kind items)
  | kind, [], es, h, _ => by
    obtain rfl := Except.ok.inj h
    rw [ItemsHold]
    show kind.unit = some true ↔ kind = .all
    cases kind <;> decide
  | kind, j :: rest, es, h, hfull => by
    obtain ⟨fs, later, hfs, hlater, rfl⟩ := nestedEntries_cons_eq_ok_iff.mp h
    rw [Json.itemsFull, Bool.and_eq_true] at hfull
    refine truthBy_group_joinNested ?_ (ne_nil_of_entries hfs hfull.1)
      (allTrue_of_entries hfs hfull.1) (truthBy_of_nestedEntries hlater hfull.2)
    rintro rfl
    exact (Except.ok.inj hfs).symm

end

/-! ### No empty groups -/

theorem isFull_of_itemEntries {items : List Json} {es : List Entry}
    (h : itemEntries field items = .ok es) :
    es.length = items.length ∧ ∀ e ∈ es, e.isFull = true := by
  induction items generalizing es with
  | nil =>
    obtain rfl := Except.ok.inj h
    exact ⟨rfl, fun e he => absurd he List.not_mem_nil⟩
  | cons j rest ih =>
    rw [itemEntries] at h
    cases hv : scalar? j with
    | none =>
      rw [hv] at h
      exact absurd h (by rintro ⟨⟩)
    | some v =>
      rw [hv] at h
      obtain ⟨later, hlater, hpure⟩ := bind_eq_ok_iff.mp h
      obtain rfl := Except.ok.inj hpure
      obtain ⟨hlength, hfull⟩ := ih hlater
      exact ⟨by rw [List.length_cons, List.length_cons, hlength],
        List.forall_mem_cons.mpr ⟨rfl, hfull⟩⟩

theorem isFull_negateAll {es : List Entry} (hne : es ≠ []) (hfull : ∀ e ∈ es, e.isFull = true) :
    (negateAll es).isFull = true := by
  match es with
  | [] => exact absurd rfl hne
  | [e] => exact (Entry.isFull_negate e).trans (hfull e List.mem_cons_self)
  | e :: e' :: rest => exact Entry.isFull_group_iff.mpr ⟨List.cons_ne_nil _ _, hfull⟩

mutual

theorem isFull_of_operatorEntries : ∀ {members : List (String × Json)} {es : List Entry},
    operatorEntries field members = .ok es → Json.membersFull members = true →
      ∀ e ∈ es, e.isFull = true
  | [], es, h, _ => by
    obtain rfl := Except.ok.inj h
    exact fun e he => absurd he List.not_mem_nil
  | (key, value) :: rest, es, h, hfull => by
    obtain ⟨e, later, he, hlater, rfl⟩ := operatorEntries_cons_eq_ok_iff.mp h
    rw [Json.membersFull, Bool.and_eq_true] at hfull
    refine List.forall_mem_cons.mpr ⟨?_, isFull_of_operatorEntries hlater hfull.2⟩
    by_cases hkey : key = "not"
    · rw [if_pos hkey] at he
      exact isFull_of_notEntry he hfull.1
    · rw [if_neg hkey] at he
      exact (truthBy_of_operatorClause (t := fun _ _ _ => none) he).2

theorem isFull_of_notEntry : ∀ {j : Json} {e : Entry}, notEntry field j = .ok e →
    j.isFull = true → e.isFull = true
  | .object members, e, h, hfull => by
    obtain ⟨es, hes, hpure⟩ := bind_eq_ok_iff.mp h
    obtain rfl := Except.ok.inj hpure
    have hmembers : Json.membersFull members = true := (Bool.and_eq_true_iff.mp hfull).2
    exact isFull_negateAll (ne_nil_of_fieldEntries (j := .object members) hes hfull)
      (isFull_of_operatorEntries hes hmembers)
  | .null, _, h, _ | .bool _, _, h, _ | .number _, _, h, _ | .text _, _, h, _ | .array _, _, h, _
  | .unreadable, _, h, _ => by exact absurd h (by rintro ⟨⟩)

end

theorem isFull_of_fieldEntries {j : Json} {es : List Entry} (h : fieldEntries field j = .ok es)
    (hfull : j.isFull = true) : ∀ e ∈ es, e.isFull = true := by
  cases j with
  | array items =>
    obtain ⟨fs, hfs, hpure⟩ := bind_eq_ok_iff.mp h
    obtain rfl := Except.ok.inj hpure
    obtain ⟨hlength, hclauses⟩ := isFull_of_itemEntries hfs
    refine List.forall_mem_singleton.mpr (Entry.isFull_group_iff.mpr ⟨?_, hclauses⟩)
    rintro rfl
    rw [List.eq_nil_of_length_eq_zero hlength.symm] at hfull
    exact absurd hfull (by decide)
  | object members => exact isFull_of_operatorEntries h (Bool.and_eq_true_iff.mp hfull).2
  | _ =>
    obtain rfl := Except.ok.inj h
    exact List.forall_mem_singleton.mpr rfl

/-! #### Null items -/

mutual

/-- Whether every list of conditions has an item other than null. -/
def hasItems : Json → Bool
  | .object members => membersHaveItems members
  | _ => true

def membersHaveItems : List (String × Json) → Bool
  | [] => true
  | (key, value) :: rest =>
    ((connectiveOf? key).isNone || listHasItems value) && membersHaveItems rest

def listHasItems : Json → Bool
  | .array items => !items.all Json.isNull && itemsHaveItems items
  | _ => true

def itemsHaveItems : List Json → Bool
  | [] => true
  | j :: rest => hasItems j && itemsHaveItems rest

end

theorem isFull_joinNested {fs : List Entry} (h : ∀ e ∈ fs, e.isFull = true) :
    ∀ e ∈ joinNested fs, e.isFull = true := by
  match fs with
  | [] => exact h
  | [e] => exact h
  | e :: e' :: rest =>
    exact List.forall_mem_singleton.mpr (Entry.isFull_group_iff.mpr ⟨List.cons_ne_nil _ _, h⟩)

/-- A list of conditions with an item other than null makes a group with a member. -/
theorem ne_nil_of_nestedEntries {items : List Json} {es : List Entry}
    (h : nestedEntries items = .ok es) (hfull : Json.itemsFull items = true)
    (hitems : items.all Json.isNull = false) : es ≠ [] := by
  induction items generalizing es with
  | nil => exact absurd hitems (by decide)
  | cons j rest ih =>
    obtain ⟨fs, later, hfs, hlater, rfl⟩ := nestedEntries_cons_eq_ok_iff.mp h
    rw [Json.itemsFull, Bool.and_eq_true] at hfull
    by_cases hnull : j = .null
    · subst hnull
      exact List.append_ne_nil_of_right_ne_nil _ (ih hlater hfull.2 hitems)
    · obtain ⟨e, hjoin, -⟩ := joinNested_of_ne_nil (ne_nil_of_entries hfs hfull.1 hnull)
      rw [hjoin]
      exact List.cons_ne_nil _ _

mutual

/-- Conditions without empty parts make no empty groups. -/
theorem isFull_of_entries : ∀ {j : Json} {es : List Entry}, entries j = .ok es →
    j.isFull = true → hasItems j = true → ∀ e ∈ es, e.isFull = true
  | .null, es, h, _, _ => by
    obtain rfl := Except.ok.inj h
    exact fun e he => absurd he List.not_mem_nil
  | .array items, es, h, hfull, _ => by
    intro e he
    obtain ⟨-, hmem⟩ := Json.of_decodeItems (explicitEntries_eq_ok_iff.mp h)
    obtain ⟨j, hj, hdecode⟩ := hmem e he
    exact Entry.isFull_of_decode hdecode (Json.isFull_of_mem hfull hj)
  | .object members, es, h, hfull, hitems =>
    isFull_of_memberEntries h (Bool.and_eq_true_iff.mp hfull).2 hitems
  | .bool _, _, h, _, _ | .number _, _, h, _, _ | .text _, _, h, _, _
  | .unreadable, _, h, _, _ => by exact absurd h (by rintro ⟨⟩)

theorem isFull_of_memberEntries : ∀ {members : List (String × Json)} {es : List Entry},
    memberEntries members = .ok es → Json.membersFull members = true →
      membersHaveItems members = true → ∀ e ∈ es, e.isFull = true
  | [], es, h, _, _ => by
    obtain rfl := Except.ok.inj h
    exact fun e he => absurd he List.not_mem_nil
  | (key, value) :: rest, es, h, hfull, hitems => by
    obtain ⟨fs, later, hfs, hlater, rfl⟩ := memberEntries_cons_eq_ok_iff.mp h
    rw [Json.membersFull, Bool.and_eq_true] at hfull
    rw [membersHaveItems, Bool.and_eq_true] at hitems
    refine List.forall_mem_append.mpr ⟨?_, isFull_of_memberEntries hlater hfull.2 hitems.2⟩
    cases hkind : connectiveOf? key with
    | none =>
      rw [hkind] at hfs
      exact isFull_of_fieldEntries hfs hfull.1
    | some kind =>
      rw [hkind] at hfs hitems
      exact isFull_of_groupEntries hfs hfull.1 hitems.1

theorem isFull_of_groupEntries : ∀ {key : String} {kind : Connective} {j : Json}
    {es : List Entry}, groupEntries key kind j = .ok es → j.isFull = true →
      listHasItems j = true → ∀ e ∈ es, e.isFull = true
  | _, kind, .array items, es, h, hfull, hitems => by
    obtain ⟨fs, hfs, hpure⟩ := bind_eq_ok_iff.mp h
    obtain rfl := Except.ok.inj hpure
    rw [Json.isFull, Bool.and_eq_true] at hfull
    rw [listHasItems, Bool.and_eq_true, Bool.not_eq_true'] at hitems
    exact List.forall_mem_singleton.mpr (Entry.isFull_group_iff.mpr
      ⟨ne_nil_of_nestedEntries hfs hfull.2 hitems.1,
        isFull_of_nestedEntries hfs hfull.2 hitems.2⟩)
  | _, _, .null, _, h, _, _ | _, _, .bool _, _, h, _, _ | _, _, .number _, _, h, _, _
  | _, _, .text _, _, h, _, _ | _, _, .object _, _, h, _, _ | _, _, .unreadable, _, h, _, _ => by
    exact absurd h (by rintro ⟨⟩)

theorem isFull_of_nestedEntries : ∀ {items : List Json} {es : List Entry},
    nestedEntries items = .ok es → Json.itemsFull items = true →
      itemsHaveItems items = true → ∀ e ∈ es, e.isFull = true
  | [], es, h, _, _ => by
    obtain rfl := Except.ok.inj h
    exact fun e he => absurd he List.not_mem_nil
  | j :: rest, es, h, hfull, hitems => by
    obtain ⟨fs, later, hfs, hlater, rfl⟩ := nestedEntries_cons_eq_ok_iff.mp h
    rw [Json.itemsFull, Bool.and_eq_true] at hfull
    rw [itemsHaveItems, Bool.and_eq_true] at hitems
    exact List.forall_mem_append.mpr
      ⟨isFull_joinNested (isFull_of_entries hfs hfull.1 hitems.1),
        isFull_of_nestedEntries hlater hfull.2 hitems.2⟩

end

/-! ### The meaning of an object -/

/-- **The meaning of short forms**: whatever clauses mean, the trees of an object without empty
parts are true together if the object holds. Unless a list of conditions has no item but null, the
statement that they are compiled to selects those nodes of a target of which the object holds at the
time of the request, where the tags of their parents are tags of stored nodes. -/
theorem allTrue_iff_holds {members : List (String × Json)} {es : List Entry}
    (hfull : Json.membersFull members = true) (h : entries (.object members) = .ok es) :
    (∀ t, Entry.AllTrue t es ↔ Holds t (.object members)) ∧
    (hasItems (.object members) = true → ∀ {now : Int} {es' : List Entry} {find : String}
      {s : Selection}, Entry.resolveAll now es = .ok es' → Selection.of find es' = .ok s →
        ∀ store : Store, store.Keyed → ∀ r ∈ store.nodes, store.OwnsParentTags r →
          (r ∈ s.nodes store ↔
            store.isTarget r find = true
              ∧ Holds ((store.view r).truthAt now) (.object members))) := by
  have htrue : ∀ t, Entry.AllTrue t es ↔ Holds t (.object members) := by
    intro t
    rw [Holds]
    exact allTrue_of_memberEntries h hfull
  refine ⟨htrue, fun hitems now es' find s hes' hs store hkeyed r hr htags => ?_⟩
  have hgroups := isFull_of_memberEntries h hfull hitems
  rw [Selection.mem_nodes_iff_matches hkeyed hs hr htags, Store.matches, Bool.and_eq_true,
    Entry.all_truths_iff hgroups hes', htrue]

/-- What was created at one of two times and has a name; the null among the items asks for
nothing. -/
def sampleConditions : List (String × Json) :=
  [("or", .array [.null, .object [("created", .array [.ofInt 1, .ofInt 5])]]),
    ("name", .object [("not", .object [("is_empty", .bool true)])])]

/-- The conditions hold of the draft of the sample, since it is selected. -/
theorem holds_sampleConditions : ∃ es es' s r, entries (.object sampleConditions) = .ok es ∧
    Entry.resolveAll 0 es = .ok es' ∧ Selection.of "task" es' = .ok s ∧ r ∈ sampleStore.nodes ∧
    r ∈ s.nodes sampleStore
      ∧ Holds ((sampleStore.view r).truthAt 0) (.object sampleConditions) := by
  obtain ⟨es, hes, es', hes', s, hs, r, hr, hselected⟩ : ∃ es,
      entries (.object sampleConditions) = .ok es ∧ ∃ es', Entry.resolveAll 0 es = .ok es' ∧
        ∃ s, Selection.of "task" es' = .ok s ∧ ∃ r ∈ sampleStore.nodes, r ∈ s.nodes sampleStore :=
    ⟨_, rfl, _, rfl, _, rfl, _, List.mem_cons_self, by decide +kernel⟩
  obtain ⟨-, hselects⟩ := allTrue_iff_holds rfl hes
  have hholds := (hselects (by decide) hes' hs sampleStore keyed_sampleStore r hr
    (ownsTags_sampleStore.parentTags r)).mp hselected
  exact ⟨es, es', s, r, hes, hes', hs, hr, hselected, hholds.2⟩

/-- An open node. -/
def openStore : Store where
  nodes := [⟨"n1", "Draft", none, none, .integer 1, .null, .null⟩]
  tags := []
  fields := [⟨"n1", "Status", "Open", .integer 0⟩]

/-- What is done, or null. -/
def nullOrDone : List Json := [.null, .object [("Status", .text "Done")]]

/-- Null as conditions of its own holds of every node, but not as the item of a list: an open node
does not meet "null or done". -/
theorem not_allTrue_null_item : ∃ r ∈ openStore.nodes, ∃ es,
    Json.membersFull [("or", .array nullOrDone)] = true ∧
    entries (.object [("or", .array nullOrDone)]) = .ok es ∧
    entries .null = .ok [] ∧
    (∃ j ∈ nullOrDone, Holds ((openStore.view r).truthAt 0) j) ∧
    ¬ Entry.AllTrue ((openStore.view r).truthAt 0) es := by
  refine ⟨_, List.mem_cons_self, [.group .any [.clause (.equalTo "Status" (.text "Done"))] false],
    by decide, rfl, rfl, ⟨.null, List.mem_cons_self, ?_⟩, ?_⟩
  · rw [Holds]
    trivial
  · rw [Entry.allTrue_singleton_iff]
    decide +kernel

end Shorthand

end GraphIndex
