import GraphIndex.Proofs.Query.Alternatives
import GraphIndex.Proofs.Query.Language.Chains

/-!
# Tests for presence and absence

A query text asks in three ways whether a field is empty (`EmptyTest`), and they are read as what
they say (`EmptyTest.denotes`). `EmptyTest.selected` says which nodes each of them selects: every
node has the field empty or not empty, and `not … is empty` selects exactly the nodes that
`is empty` leaves out.

A text of a column that is there and blank is both: a column is present if it is not null, and
absent if it is null or blank (`EmptyTest.not_selected_blank`).
-/

namespace GraphIndex

namespace Language

variable {field : String} {word rest s : List Char} {us : List Token} {e : Entry} {fuel : Nat}

/-! ### Texts of conditions -/

/-- Whether a text is the name of a field: between quotes of either kind, or bare. -/
inductive Names (field : String) : List Char → Prop
  | doubleQuoted (h : '"' ∉ field.toList) : Names field (inQuotes field)
  | singleQuoted (h : '\x27' ∉ field.toList) :
    Names field ('\x27' :: (field.toList ++ ['\x27']))
  | bare (h : isIdentifier field.toList = true) (hnot : field ≠ "not") : Names field field.toList

/-- Whether a text is read, to its end, as a condition. -/
def Denotes (s : List Char) (e : Entry) : Prop := orChain (stepsFor s) s = some (e, [])

theorem quoted_inSingleQuotes (h : '\x27' ∉ field.toList) (rest : List Char) :
    quoted ('\x27' :: (field.toList ++ ['\x27']) ++ rest) = some (field, rest) := by
  rw [List.cons_append, List.append_assoc, List.singleton_append]
  exact quotedRest_append h rest

theorem Names.field_append (h : Names field word) (hrest : EndsWord rest) :
    Language.field (word ++ rest) = some (field, rest) := by
  cases h with
  | doubleQuoted h => exact field_inQuotes h rest
  | singleQuoted h =>
    unfold Language.field
    rw [quoted_inSingleQuotes h]
    rfl
  | bare h _ => rw [Language.field_append h hrest, String.ofList_toList]

/-- The spaces before a name are passed over. -/
theorem Names.spaces_append {gap : List Char} (h : Names field word)
    (hgap : ∀ c ∈ gap, isSpace c = true) (rest : List Char) :
    spaces (gap ++ (word ++ rest)) = word ++ rest := by
  have hsolid : ∀ c ∈ (word ++ rest).head?, Text.isBlank c = false := by
    cases h with
    | doubleQuoted h => exact fun c hc => Option.some.inj hc ▸ rfl
    | singleQuoted h => exact fun c hc => Option.some.inj hc ▸ rfl
    | bare h _ =>
      rw [List.head?_append_of_ne_nil _ (isSolid_of_isIdentifier h).ne_nil]
      exact (isSolid_of_isIdentifier h).first
  rw [spaces, List.dropWhile_append_of_pos hgap]
  refine dropWhile_eq_self fun c hc => ?_
  by_contra hspace
  have hblank := isBlank_of_isSpace (Bool.eq_true_of_not_eq_false hspace)
  exact absurd ((hsolid c hc).symm.trans hblank) (by decide)

/-- A name is no negation and no parenthesis, so that a single condition is read. -/
theorem Names.unary_eq_condition (h : Names field word) (hrest : Follows us rest)
    (hus : ∀ r, Follows us r → unary fuel (spaces r) = none) :
    unary (fuel + 1) (word ++ rest) = condition (word ++ rest) := by
  have hspelled : ∀ {word}, (Token.name field).Spelled word →
      unary (fuel + 1) (word ++ rest) = condition (word ++ rest) := by
    intro word hword
    have hwritten : Written (.name field :: us) (word ++ rest) := ⟨word, rest, hword, hrest, rfl⟩
    exact unary_of_neither (hwritten.unary_after_name hus)
      (hwritten.symbol_of_name (by decide) (by decide))
  cases h with
  | doubleQuoted h => exact hspelled (.inl rfl)
  | bare h hnot => exact hspelled (.inr ⟨rfl, h, hnot⟩)
  | singleQuoted h =>
    -- Such a name is no token, but its quote starts neither of the two.
    have hnot : ∀ r, keyword "not" ('\x27' :: (field.toList ++ ['\x27']) ++ rest) ≠ some r := by
      intro r hr
      have hnone : keyword "not" ('\x27' :: (field.toList ++ ['\x27'] ++ rest)) = none :=
        keyword_cons_eq_none (by decide) (by decide)
      exact absurd (hnone.symm.trans hr) (by rintro ⟨⟩)
    have hopening : symbol '(' ('\x27' :: (field.toList ++ ['\x27']) ++ rest) = none := by
      rw [List.cons_append, symbol, if_neg (by decide)]
    exact unary_of_neither (fun r hr => absurd hr (hnot r)) hopening

theorem joint_nil (w : String) : joint w [] = none := rfl

/-- What is read as a single condition, to the end of the text, is the whole condition. -/
theorem denotes_of_unary (h : ∀ fuel, unary (fuel + 2) s = some (e, [])) : Denotes s e := by
  -- At the end of the text neither chain goes on.
  have hfurther : ∀ (kind : Connective) n, kind.readFurther n [] = ([], []) := by
    intro kind n
    cases n with
    | zero => cases kind <;> rfl
    | succ n => rw [kind.readFurther_succ, joint_nil]; rfl
  have hand : ∀ n, Connective.all.level.read (n + 3) s = some (e, []) := by
    intro n
    rw [Connective.read_level]
    show (unary (n + 2) s).bind _ = _
    rw [h n]
    show some (chain .all e (Connective.all.readFurther (n + 2) []).1, _) = _
    rw [hfurther]
    rfl
  obtain ⟨n, hn⟩ : ∃ n, stepsFor s = n + 4 := ⟨4 * s.length + 4, rfl⟩
  show Connective.any.level.read (stepsFor s) s = _
  rw [hn, Connective.read_level]
  show (Connective.all.level.read (n + 3) s).bind _ = _
  rw [hand n]
  show some (chain .any e (Connective.any.readFurther (n + 3) []).1, _) = _
  rw [hfurther]
  rfl

/-! ### Whether a field is empty -/

theorem Follows.reads_existenceTest_not_missing
    (h : Follows (.word "is" :: .word "not" :: .word "empty" :: us) s) :
    Reads (existenceTest s) .present us := by
  obtain ⟨hempties, r, his, hr⟩ := h.existenceTest_eq_emptiness
  obtain ⟨hsome, hwritten⟩ := hr.skip
  obtain ⟨r', hnot, hr'⟩ := hwritten.passes_keyword
  obtain ⟨hsome', hwritten'⟩ := hr'.skip
  obtain ⟨rest, hempty, hrest⟩ := hwritten'.passes_keyword
  refine ⟨rest, ?_, hrest⟩
  rw [hempties]
  unfold emptiness
  rw [his]
  show (someSpaces r).bind _ = _
  rw [hsome]
  show ((keyword "not" (spaces r)).bind _ <|> _) = _
  rw [hnot]
  show ((someSpaces r').bind _ <|> _) = _
  rw [hsome']
  show ((keyword "empty" (spaces r')).bind _ <|> _) = _
  rw [hempty]
  rfl

/-- A name and a test of existence are read as a condition. -/
theorem Names.unary_existenceTest {op : Operator} (h : Names field word)
    (hrest : Follows (.word "is" :: us) rest) (hus : EndsBefore ["exists", "is"] us)
    (hread : Reads (existenceTest rest) op []) (fuel : Nat) :
    unary (fuel + 1) (word ++ rest) = some (.clause (.plain field op (.bool true)), []) := by
  have htest : ∀ r, Follows (.word "is" :: us) r → unary fuel (spaces r) = none :=
    fun r hr => hr.skip.2.unary_eq_none (by decide) hus fuel
  obtain ⟨_, hop, rfl⟩ := hread
  rw [h.unary_eq_condition hrest htest]
  unfold condition
  rw [h.field_append hrest.endsWord]
  show ((existenceTest rest).map _ <|> comparison rest).bind _ = _
  rw [hop]
  rfl

end Language

open GraphIndex.Language

/-- The ways to ask in a query text whether a field is empty. -/
inductive EmptyTest where
  | isEmpty
  | isNotEmpty
  | notIsEmpty

namespace EmptyTest

variable {field : String} {s : List Char}

/-- The condition that is asked. -/
def entry (field : String) : EmptyTest → Entry
  | isEmpty => .clause (.missing field)
  | isNotEmpty => .clause (.present field)
  | notIsEmpty => (Entry.clause (.missing field)).negate

theorem isWord_is : isWord "is" = true := by decide

theorem isWord_not : isWord "not" = true := by decide

theorem isWord_empty : isWord "empty" = true := by decide

/-- Whether a text is a field and words after it. -/
def Asks (field : String) (words : List Token) (s : List Char) : Prop :=
  ∃ word rest, Names field word ∧ Follows words rest ∧ s = word ++ rest

/-- Whether a text asks in a given way: keywords may stand in any letter case, and any spaces
between two words. -/
def Spelled (field : String) : EmptyTest → List Char → Prop
  | isEmpty, s => Asks field [.word "is" isWord_is, .word "empty" isWord_empty] s
  | isNotEmpty, s =>
    Asks field [.word "is" isWord_is, .word "not" isWord_not, .word "empty" isWord_empty] s
  | notIsEmpty, s => ∃ before gap r, (Token.word "not" isWord_not).Spelled before ∧ gap ≠ []
      ∧ (∀ c ∈ gap, isSpace c = true)
      ∧ Asks field [.word "is" isWord_is, .word "empty" isWord_empty] r
      ∧ s = before ++ (gap ++ r)

theorem unary_isEmpty (h : isEmpty.Spelled field s) (fuel : Nat) :
    unary (fuel + 1) s = some (.clause (.missing field), []) := by
  obtain ⟨word, rest, hword, hrest, rfl⟩ := h
  exact hword.unary_existenceTest hrest (show "empty" ∉ ["exists", "is"] by decide)
    hrest.reads_existenceTest_missing fuel

/-- **Tests are read** as what they ask. -/
theorem denotes (test : EmptyTest) (h : test.Spelled field s) : Denotes s (test.entry field) := by
  refine denotes_of_unary fun fuel => ?_
  cases test with
  | isEmpty => exact unary_isEmpty h (fuel + 1)
  | isNotEmpty =>
    obtain ⟨word, rest, hword, hrest, rfl⟩ := h
    exact hword.unary_existenceTest hrest (show "not" ∉ ["exists", "is"] by decide)
      hrest.reads_existenceTest_not_missing (fuel + 1)
  | notIsEmpty =>
    obtain ⟨before, gap, r, hbefore, hne, hgap, hr, rfl⟩ := h
    have hends : EndsWord (gap ++ r) := by
      obtain ⟨c, gap, rfl⟩ := List.exists_cons_of_ne_nil hne
      intro d hd
      rw [← Option.some.inj hd]
      exact hgap c List.mem_cons_self
    have hspaces : spaces (gap ++ r) = r := by
      obtain ⟨word, rest, hword, -, rfl⟩ := hr
      exact hword.spaces_append hgap rest
    have hread : unary (fuel + 1) (spaces (gap ++ r)) = some (.clause (.missing field), []) := by
      rw [hspaces]
      exact unary_isEmpty hr fuel
    exact unary_of_not (keyword_append (by decide) hbefore hends) hread

/-- The short form for "not empty" is the test for presence; the keys that join lists of conditions
are no fields. -/
theorem entries_not_isEmpty_iff {es : List Entry} :
    Shorthand.entries (.object [(field, .object [("is_empty", .bool false)])]) = .ok es ↔
      Shorthand.connectiveOf? field = none ∧ es = [isNotEmpty.entry field] := by
  cases hkey : Shorthand.connectiveOf? field with
  | none =>
    have hread : Shorthand.entries (.object [(field, .object [("is_empty", .bool false)])])
        = .ok [isNotEmpty.entry field] := Shorthand.entries_field hkey rfl
    rw [hread]
    exact ⟨fun h => ⟨rfl, (Except.ok.inj h).symm⟩, fun h => congrArg Except.ok h.2.symm⟩
  | some kind =>
    rw [Shorthand.entries_connective hkey]
    exact iff_of_false (fun ⟨_, _, h, _⟩ => absurd h (by rintro ⟨⟩)) fun h => absurd h.1 (by simp)

end EmptyTest

/-! ### What tests select -/

namespace NodeView

variable (view : NodeView)

/-- Whether a value is there. -/
def isPresent : Route → Bool
  | .column k => !(view.cell k).isNull
  | .parentName => !view.parentName.isNull
  | .parentTags => view.isParentTagged
  | .custom field => (view.values field).any (· != "")

/-- Whether a column, or the name of the parent, is a text that is there and blank. -/
def isBlank : Route → Bool
  | .column k => view.cell k == .text ""
  | .parentName => view.parentName == .text ""
  | _ => false

/-- A blank text is there. -/
theorem isBlank_imp_isPresent {route : Route} (h : view.isBlank route = true) :
    view.isPresent route = true := by
  cases route with
  | column k =>
    have hcell : view.cell k = .text "" := beq_iff_eq.mp h
    rw [isPresent, hcell]
    rfl
  | parentName =>
    have hname : view.parentName = .text "" := beq_iff_eq.mp h
    rw [isPresent, hname]
    rfl
  | _ => exact absurd h Bool.false_ne_true

end NodeView

namespace EmptyTest

variable {field : String} {route : Route} {view : NodeView}

theorem truth_present (hroute : Route.ofField field = .ok route) :
    (Clause.present field).positiveTruth view = some (view.isPresent route) := by
  cases route with
  | column k =>
    rw [Clause.positiveTruth_column (c := .present field) hroute]
    rfl
  | parentName =>
    rw [Clause.positiveTruth_parentName (c := .present field) hroute]
    rfl
  | parentTags =>
    rw [Clause.positiveTruth_parentTags_of_test (c := .present field) hroute rfl]
    exact congrArg some (beq_true _)
  | custom name =>
    rw [Clause.positiveTruth_custom_of_test (c := .present field) hroute rfl]
    exact congrArg some (beq_true _)

theorem truth_missing (hroute : Route.ofField field = .ok route) :
    (Clause.missing field).positiveTruth view
      = some (!view.isPresent route || view.isBlank route) := by
  have hnot : ∀ d : Datum, (d.isNull || d == .text "") = (!(!d.isNull) || d == .text "") := by
    intro d
    rw [Bool.not_not]
  cases route with
  | column k =>
    rw [Clause.positiveTruth_column (c := .missing field) hroute]
    exact congrArg some (hnot _)
  | parentName =>
    rw [Clause.positiveTruth_parentName (c := .missing field) hroute]
    exact congrArg some (hnot _)
  | parentTags =>
    rw [Clause.positiveTruth_parentTags_of_test (c := .missing field) hroute rfl]
    exact congrArg some ((beq_false _).trans (Bool.or_false _).symm)
  | custom name =>
    rw [Clause.positiveTruth_custom_of_test (c := .missing field) hroute rfl]
    exact congrArg some ((beq_false _).trans (Bool.or_false _).symm)

/-- A test of existence can be compiled for every field that can be asked for. -/
theorem compiles (hroute : Route.ofField field = .ok route) (test : EmptyTest) :
    (test.entry field).Compiles := by
  have hclause : ∀ c : Clause, c.field = field → c.effectiveOperator.isExistenceTest = true →
      (Entry.clause c).Compiles := by
    rintro c rfl hop
    have hbecomes : ∃ g k, Clause.Becomes Filter.defaultStem c (false || c.negated) 0 g k := by
      cases route with
      | column k => exact ⟨_, _, .column k hroute⟩
      | parentName => exact ⟨_, _, .parentName hroute fun _ => hop⟩
      | parentTags => exact ⟨_, _, .parentTagPresence hroute hop⟩
      | custom name => exact ⟨_, _, .fieldPresence name hroute hop⟩
    obtain ⟨g, k, hg⟩ := hbecomes
    exact ⟨0, _, k, yields_bind.mpr ⟨_, _, hg.yields, yields_pure.mpr ⟨rfl, rfl⟩⟩⟩
  cases test <;> exact hclause _ rfl rfl

/-- What a test says of a node. -/
def holds (view : NodeView) (route : Route) : EmptyTest → Bool
  | isEmpty => !view.isPresent route || view.isBlank route
  | isNotEmpty => view.isPresent route
  | notIsEmpty => !(!view.isPresent route || view.isBlank route)

variable {store : Store} {r : NodeRow} {find : String}

theorem splitTruth_entry (hroute : Route.ofField field = .ok route) (test : EmptyTest) :
    (test.entry field).splitTruth (store.view r) (store.nestedView r)
      = some (test.holds (store.view r) route) := by
  cases test with
  | isEmpty => exact truth_missing hroute
  | isNotEmpty => exact truth_present hroute
  | notIsEmpty =>
    have hnested : (Clause.missing field).positiveTruth (store.nestedView r)
        = (Clause.missing field).positiveTruth (store.view r) :=
      Clause.positiveTruth_nestedView fun _ => rfl
    show ((Clause.missing field).positiveTruth (store.nestedView r)).map (!·) = _
    rw [hnested, truth_missing hroute]
    rfl

/-- A test selects the nodes of the target of which it holds. -/
theorem mem_nodes_iff (hids : store.UniqueIds) (hroute : Route.ofField field = .ok route)
    {test : EmptyTest} {s : Selection} (h : Selection.of find [test.entry field] = .ok s) :
    r ∈ s.nodes store ↔ store.IsOf find r ∧ test.holds (store.view r) route = true := by
  have hclause : (test.entry field).hasClause = true := by cases test <;> rfl
  rw [Selection.mem_nodes_iff hids h, Entry.splitTruths, if_pos hclause, Entry.splitTruths,
    List.forall_mem_singleton, splitTruth_entry hroute, Option.some.injEq, Store.IsOf, and_assoc]

/-- **Tests for presence and absence.** Each way to ask whether a field is empty is read as what it
asks, and so is the short form. Of every node of a target the field is empty or not empty, and it is
both exactly if it is a blank text of a column or of the name of the parent; `not` before the test
for absence selects exactly the other nodes. -/
theorem selected (hids : store.UniqueIds) (hroute : Route.ofField field = .ok route)
    (find : String) :
    (∀ (test : EmptyTest) (s : List Char), test.Spelled field s → Denotes s (test.entry field)) ∧
    (∀ es, Shorthand.entries (.object [(field, .object [("is_empty", .bool false)])]) = .ok es ↔
      Shorthand.connectiveOf? field = none ∧ es = [isNotEmpty.entry field]) ∧
    ∃ sel : EmptyTest → Selection,
      (∀ test, Selection.of find [test.entry field] = .ok (sel test)) ∧
      (∀ test, ∀ r ∈ (sel test).nodes store, store.IsOf find r) ∧
      ∀ r, store.IsOf find r →
        (r ∈ (sel isEmpty).nodes store ∨ r ∈ (sel isNotEmpty).nodes store) ∧
        (r ∈ (sel isEmpty).nodes store ∧ r ∈ (sel isNotEmpty).nodes store ↔
          (store.view r).isBlank route = true) ∧
        (r ∈ (sel notIsEmpty).nodes store ↔ r ∉ (sel isEmpty).nodes store) ∧
        (r ∈ (sel notIsEmpty).nodes store ↔ r ∈ (sel isNotEmpty).nodes store ∧
          (store.view r).isBlank route = false) := by
  have hsel : ∀ test : EmptyTest, ∃ s, Selection.of find [test.entry field] = .ok s := by
    intro test
    obtain ⟨f, hf⟩ := Entry.exists_ofEntries_iff.mpr
      (List.forall_mem_singleton.mpr (compiles hroute test))
    exact ⟨_, Selection.of_eq_ok_iff.mpr ⟨f, hf, rfl⟩⟩
  choose sel hsel using hsel
  have hmem : ∀ test r, r ∈ (sel test).nodes store ↔
      store.IsOf find r ∧ test.holds (store.view r) route = true :=
    fun test r => mem_nodes_iff hids hroute (hsel test)
  refine ⟨fun test s => denotes test, fun es => entries_not_isEmpty_iff, sel, hsel,
    fun test r hr => ((hmem test r).mp hr).1, fun r hof => ?_⟩
  -- Two truth values are left, and a blank one is present.
  have hpresent : (store.view r).isBlank route = true → (store.view r).isPresent route = true :=
    NodeView.isBlank_imp_isPresent _
  simp only [hmem, hof, true_and, holds]
  cases hp : (store.view r).isPresent route <;> cases hb : (store.view r).isBlank route <;>
    simp_all

/-- The draft of the sample has a named parent: "not … is empty" is read, and selects it. -/
theorem selected_sample : ∃ draft ∈ sampleStore.nodes, sampleStore.UniqueIds ∧
    Route.ofField "parent.name" = .ok .parentName ∧
    notIsEmpty.Spelled "parent.name" "not parent.name is empty".toList ∧
    Denotes "not parent.name is empty".toList (notIsEmpty.entry "parent.name") ∧
    ∃ s, Selection.of "*" [notIsEmpty.entry "parent.name"] = .ok s ∧
      draft ∈ s.nodes sampleStore := by
  have hids := keyed_sampleStore.uniqueIds
  have hroute : Route.ofField "parent.name" = .ok .parentName := rfl
  have hspace : ∀ c ∈ [' '], isSpace c = true := List.forall_mem_singleton.mpr rfl
  have hrest : Follows [.word "is", .word "empty"] " is empty".toList :=
    ⟨[' '], "is".toList, " empty".toList, by decide, hspace, rfl,
      ⟨[' '], "empty".toList, [], by decide, hspace, rfl, rfl, rfl⟩, rfl⟩
  have hspelled : notIsEmpty.Spelled "parent.name" "not parent.name is empty".toList :=
    ⟨"not".toList, [' '], "parent.name is empty".toList, rfl, by decide, hspace,
      ⟨"parent.name".toList, " is empty".toList, .bare (by decide +kernel) (by decide), hrest, rfl⟩,
      rfl⟩
  obtain ⟨hread, -, sel, hsel, -, hnodes⟩ := selected hids hroute "*"
  obtain ⟨s, hs, hpresent⟩ : ∃ s, Selection.of "*" [isNotEmpty.entry "parent.name"] = .ok s ∧
      ⟨"n1", "Draft", "p1", none, .integer 1, .null, .null⟩ ∈ s.nodes sampleStore :=
    ⟨_, rfl, by decide +kernel⟩
  obtain rfl := Except.ok.inj (hs.symm.trans (hsel isNotEmpty))
  obtain ⟨-, -, -, hsame⟩ := hnodes _ ⟨(Selection.mem_nodes.mp hpresent).1, rfl⟩
  exact ⟨_, List.mem_cons_self, hids, hroute, hspelled, hread _ _ hspelled, _, hsel notIsEmpty,
    hsame.mpr ⟨hpresent, by decide⟩⟩

/-- A node whose name is there and blank. -/
def blankStore : Store where
  nodes := [⟨"n1", "", none, none, .integer 1, .null, .null⟩]
  tags := []
  fields := []

/-- A blank name is both empty and not empty. -/
theorem not_selected_blank : ∃ r ∈ blankStore.nodes, blankStore.Keyed ∧
    Route.ofField "name" = .ok (.column .name) ∧
    Denotes "name is empty".toList (isEmpty.entry "name") ∧
    Denotes "name is not empty".toList (isNotEmpty.entry "name") ∧
    (∃ s, Selection.of "*" [isEmpty.entry "name"] = .ok s ∧ r ∈ s.nodes blankStore) ∧
    ∃ s, Selection.of "*" [isNotEmpty.entry "name"] = .ok s ∧ r ∈ s.nodes blankStore :=
  ⟨_, List.mem_cons_self, ⟨by decide, by decide⟩, rfl, rfl, rfl, ⟨_, rfl, by decide +kernel⟩,
    _, rfl, by decide +kernel⟩

end EmptyTest

end GraphIndex
