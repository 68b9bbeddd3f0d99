import GraphIndex.Proofs.Query.Language.Chains

/-!
# Queries read back from query texts

A query that can be written (`Query.IsPlain`) is read back from its text (`Query.ofText_written`):
keywords may stand in any letter case, and any spaces between two tokens. What is left out of a text
is what the query has by default.
-/

namespace GraphIndex

open GraphIndex.Language

/-! ### Queries as tokens -/

namespace Query

/-- The choices that are open where a query is written. -/
structure Style where
  /-- The usual limit is written. -/
  writesLimit : Bool
  /-- The usual offset is written. -/
  writesOffset : Bool
  /-- Conditions joined by `or` stand in parentheses even if they are all there is. -/
  wrapsAlternatives : Bool

/-- The tokens of the conditions of a query. -/
def conditionTokens (wraps : Bool) : List Entry → List Token
  | [] => []
  | [.group .any members false] =>
    .word "where" :: if wraps then Entry.joinedTokens .all [.group .any members false]
      else Entry.joinedTokens .any members
  | es => .word "where" :: Entry.joinedTokens .all es

/-- The tokens of a sort order. -/
def orderTokens : Option SortKey → List Token
  | none => []
  | some key =>
    [.word "order", .word "by", .name key.field,
      if key.descending then .word "desc" else .word "asc"]

/-- The tokens of a count, which may be left out if it is the usual one. -/
def countTokens (k : Keyword) (writes : Bool) (usual n : Int64) : List Token :=
  if writes || n != usual then [.keyword k, .integer n] else []

/-- The tokens of names with a comma before each. -/
def furtherNames : List String → List Token
  | [] => []
  | n :: names => .comma :: .name n :: furtherNames names

/-- The tokens of the fields to show. -/
def selectTokens : Option (List String) → List Token
  | some (n :: names) => .word "select" :: .name n :: furtherNames names
  | _ => []

/-- The tokens from the offset on. -/
def offsetTokens (style : Style) (q : Query) : List Token :=
  countTokens ⟨"offset", by decide⟩ style.writesOffset 0 q.offset ++ selectTokens q.select

/-- The tokens from the limit on. -/
def limitTokens (style : Style) (q : Query) : List Token :=
  countTokens ⟨"limit", by decide⟩ style.writesLimit defaultLimit q.limit ++ offsetTokens style q

/-- The tokens of a query. -/
def tokens (style : Style) (q : Query) : List Token :=
  .word "find" :: .target q.find :: (conditionTokens style.wrapsAlternatives q.conditions
    ++ (orderTokens q.orderBy ++ limitTokens style q))

/-- Whether a query can be written: no name has a double quote in it, the conditions can be written
and are not a single group that would be taken apart, no count is negative, and some field is shown
if any are asked for. -/
structure IsPlain (q : Query) : Prop where
  find : '"' ∉ q.find.toList
  conditions : ∀ e ∈ q.conditions, e.IsPlain
  ungrouped : ∀ members, q.conditions ≠ [.group .all members false]
  orderBy : ∀ key ∈ q.orderBy, '"' ∉ key.field.toList
  limit : 0 ≤ q.limit
  offset : 0 ≤ q.offset
  select : ∀ names ∈ q.select, names ≠ [] ∧ ∀ n ∈ names, '"' ∉ n.toList

end Query

namespace Language

variable {s : List Char} {t : Token} {ts us : List Token} {words : List String} {q : Query}

/-! ### Parts that may be missing -/

theorem endsBefore_nil : EndsBefore words [] := trivial

theorem EndsBefore.append (h : EndsBefore words ts) (h' : EndsBefore words us) :
    EndsBefore words (ts ++ us) := by
  cases ts with
  | nil => exact h'
  | cons t ts => cases t <;> exact h

theorem endsBefore_orderTokens (hwords : "order" ∉ words) (order : Option SortKey) :
    EndsBefore words (Query.orderTokens order) := by
  cases order with
  | none => trivial
  | some key => exact hwords

theorem endsBefore_countTokens {k : Keyword} (hwords : k.text ∉ words) (writes : Bool)
    (usual n : Int64) : EndsBefore words (Query.countTokens k writes usual n) := by
  unfold Query.countTokens
  split
  · exact hwords
  · trivial

theorem endsBefore_selectTokens (hwords : "select" ∉ words) (names : Option (List String)) :
    EndsBefore words (Query.selectTokens names) := by
  match names with
  | none => trivial
  | some [] => trivial
  | some (n :: names) => exact hwords

theorem endsBefore_offsetTokens (hoffset : "offset" ∉ words) (hselect : "select" ∉ words)
    (style : Query.Style) (q : Query) : EndsBefore words (q.offsetTokens style) :=
  (endsBefore_countTokens hoffset _ _ _).append (endsBefore_selectTokens hselect _)

theorem endsBefore_limitTokens (hlimit : "limit" ∉ words) (hoffset : "offset" ∉ words)
    (hselect : "select" ∉ words) (style : Query.Style) (q : Query) :
    EndsBefore words (q.limitTokens style) :=
  (endsBefore_countTokens hlimit _ _ _).append (endsBefore_offsetTokens hoffset hselect style q)

/-- Whether a part that may be missing is read, or found missing, before other tokens. -/
def ReadsOptional {α : Type} (part : List Char → Option (α × List Char)) (s : List Char)
    (a : Option α) (ts : List Token) : Prop :=
  ∃ rest, optional part s = (a, rest) ∧ Follows ts rest

theorem Reads.readsOptional {α : Type} {part : List Char → Option (α × List Char)} {a : α}
    (h : Reads (part s) a ts) : ReadsOptional part s (some a) ts := by
  obtain ⟨rest, hread, hrest⟩ := h
  refine ⟨rest, ?_, hrest⟩
  unfold optional
  rw [hread]

theorem readsOptional_none {α : Type} {part : List Char → Option (α × List Char)}
    (h : part s = none) (hs : Follows ts s) : ReadsOptional part s none ts := by
  refine ⟨s, ?_, hs⟩
  unfold optional
  rw [h]

/-! ### Conditions -/

/-- The condition that stands for the conditions of a query. -/
def whole : List Entry → Entry
  | [e] => e
  | es => .group .all es false

theorem topLevel_whole {es : List Entry} (hes : ∀ members, es ≠ [.group .all members false])
    (hne : es ≠ []) : topLevel (whole es) = es := by
  match es with
  | [] => exact absurd rfl hne
  | e :: e' :: es => rfl
  | [.clause c] => rfl
  | [.group .any members negated] => rfl
  | [.group .all members true] => rfl
  | [.group .all members false] => exact absurd rfl (hes members)

theorem recognizes_whole {es : List Entry} (hes : ∀ e ∈ es, e.IsPlain) (hne : es ≠ []) :
    Recognizes .disjunction (whole es) (Entry.joinedTokens .all es) := by
  match es with
  | [] => exact absurd rfl hne
  | [e] =>
    have hsingle : Recognizes .single e (e.tokens .all) :=
      e.recognizes (hes e List.mem_cons_self) .all
    rw [Entry.joinedTokens, Entry.furtherTokens, List.append_nil]
    exact (hsingle.alone .all).disjunction .all
  | e :: e' :: es =>
    have hlength : 2 ≤ (e :: e' :: es).length := by
      rw [List.length_cons, List.length_cons]
      omega
    have hjoined := recognizes_joined .all (fun e he => e.recognizes (hes e he) .all) hlength
    exact hjoined.disjunction .all

theorem recognizes_conditions {es : List Entry} (hes : ∀ e ∈ es, e.IsPlain) (hne : es ≠ [])
    (wraps : Bool) : ∃ ts, Query.conditionTokens wraps es = .word "where" :: ts
      ∧ Recognizes .disjunction (whole es) ts := by
  have hwhole := recognizes_whole hes hne
  unfold Query.conditionTokens
  split
  · exact absurd rfl hne
  · next members =>
    cases wraps with
    | true => exact ⟨_, rfl, hwhole⟩
    | false =>
      obtain ⟨hlength, hmembers⟩ := hes _ List.mem_cons_self
      have hjoined := recognizes_joined .any
        (fun e he => e.recognizes (Entry.allPlain_iff.mp hmembers e he) .any) hlength
      exact ⟨_, rfl, hjoined⟩
  · exact ⟨_, rfl, hwhole⟩

theorem Follows.reads_wherePart {e : Entry} (h : Follows (.word "where" :: (ts ++ us)) s)
    (hts : Recognizes .disjunction e ts) (hus : EndsBefore Level.disjunction.barred us) :
    Reads (wherePart s) e us := by
  obtain ⟨r, hjoint, hr⟩ := h.reads_joint
  have hlength := hr.length_le
  rw [List.length_append] at hlength
  -- There are enough steps: no token is shorter than one character.
  have hsteps : 3 * ts.length + Level.disjunction.depth ≤ stepsFor r := by
    show 3 * ts.length + 2 ≤ 4 * r.length + 8
    omega
  obtain ⟨rest, hread, hrest⟩ := hts us r _ hus hr hsteps
  refine ⟨rest, ?_, hrest⟩
  unfold wherePart
  rw [hjoint]
  exact hread

/-- The conditions of a query are read. -/
theorem Follows.reads_conditions {es : List Entry} {wraps : Bool}
    (h : Follows (Query.conditionTokens wraps es ++ us) s) (hes : ∀ e ∈ es, e.IsPlain)
    (hungrouped : ∀ members, es ≠ [.group .all members false])
    (hus : EndsBefore ("where" :: Level.disjunction.barred) us) :
    ∃ e?, ReadsOptional wherePart s e? us ∧ (e?.map topLevel).getD [] = es := by
  by_cases hne : es = []
  · subst hne
    have hnone : wherePart s = none := by
      unfold wherePart
      rw [h.joint_eq_none hus List.mem_cons_self (by decide)]
      rfl
    exact ⟨none, readsOptional_none hnone h, rfl⟩
  · obtain ⟨ts, htokens, hts⟩ := recognizes_conditions hes hne wraps
    rw [htokens] at h
    have hread := h.reads_wherePart hts (hus.mono (List.subset_cons_self _ _))
    exact ⟨some (whole es), hread.readsOptional, topLevel_whole hungrouped hne⟩

/-! ### The other parts -/

theorem Follows.reads_direction {descending : Bool}
    (h : Follows ((if descending then .word "desc" else .word "asc") :: us) s) :
    Reads (direction s) descending us := by
  obtain ⟨hsome, hwritten⟩ := h.skip
  cases descending with
  | true =>
    obtain ⟨rest, hkeyword, hrest⟩ := Written.passes_keyword (k := ⟨"desc", by decide⟩) hwritten
    refine ⟨rest, ?_, hrest⟩
    unfold direction
    rw [hsome]
    show ((keyword "desc" (spaces s)).map _ <|> _) = _
    rw [hkeyword]
    rfl
  | false =>
    have hdesc : keyword "desc" (spaces s) = none :=
      Written.keyword_of_ne (k := ⟨"asc", by decide⟩) hwritten (by decide) (by decide)
    obtain ⟨rest, hkeyword, hrest⟩ := Written.passes_keyword (k := ⟨"asc", by decide⟩) hwritten
    refine ⟨rest, ?_, hrest⟩
    unfold direction
    rw [hsome]
    show ((keyword "desc" (spaces s)).map _ <|> (keyword "asc" (spaces s)).map _) = _
    rw [hdesc, hkeyword]
    rfl

/-- A part begins with its keyword. -/
theorem Follows.part_eq_none {α : Type} {w : String} {part : List Char → Option α}
    (h : Follows us s) (hus : EndsBefore [w] us) (hw : isWord w = true) :
    ((someSpaces s).bind fun s => (keyword w s).bind part) = none := by
  rw [← Option.bind_assoc, h.keyword_eq_none hus List.mem_cons_self hw]
  rfl

/-- A part begins with its keyword and spaces. -/
theorem Follows.passes_word {k : Keyword} (h : Follows (.keyword k :: t :: ts) s) :
    ∃ r, someSpaces s = some (spaces s) ∧ keyword k.text (spaces s) = some r
      ∧ someSpaces r = some (spaces r) ∧ Written (t :: ts) (spaces r) := by
  obtain ⟨hsome, hwritten⟩ := h.skip
  obtain ⟨r, hkeyword, hr⟩ := hwritten.passes_keyword
  exact ⟨r, hsome, hkeyword, hr.skip⟩

theorem Follows.reads_orderBy {order : Option SortKey}
    (h : Follows (Query.orderTokens order ++ us) s)
    (horder : ∀ key ∈ order, '"' ∉ key.field.toList) (hus : EndsBefore ["order"] us) :
    ReadsOptional orderPart s order us := by
  cases order with
  | none => exact readsOptional_none (h.part_eq_none hus (by decide)) h
  | some key =>
    obtain ⟨r, hsome, horderWord, hsome', hr⟩ := h.passes_word
    obtain ⟨r', hby, hr'⟩ := hr.passes_keyword
    obtain ⟨hsome'', hname⟩ := hr'.skip
    -- The short form with a minus sign is tried first, but no name begins with one.
    have hdash : symbol '-' (spaces r') = none := hname.symbol_of_name (by decide) (by decide)
    obtain ⟨r'', hfield, hr''⟩ := hname.reads_field (horder key rfl)
    obtain ⟨rest, hdirection, hrest⟩ := hr''.reads_direction
    have hpart : orderPart s = some (key, rest) := by
      unfold orderPart optional
      simp only [bind, Option.bind, hsome, horderWord, hsome', hby, hsome'', hdash, Option.map_none,
        hfield, hdirection, Option.getD_some]
    exact Reads.readsOptional ⟨rest, hpart, hrest⟩

theorem Follows.reads_count {w : String} {hw : isWord w = true} {writes : Bool} {usual n : Int64}
    (h : Follows (Query.countTokens ⟨w, hw⟩ writes usual n ++ us) s) (hn : 0 ≤ n)
    (hus : EndsBefore [w] us) :
    ∃ n?, ReadsOptional (countPart w) s n? us ∧ n?.getD usual = n := by
  unfold Query.countTokens at h
  split at h
  · obtain ⟨r, hsome, hkeyword, hsome', word, rest, hword, hrest, hs⟩ := h.passes_word
    have hcount : count (spaces r) = some (n, rest) := by
      rw [hs, show word = Json.intChars n.toInt from hword]
      exact count_intChars hn hrest.endsWord
    have hpart : countPart w s = some (n, rest) := by
      unfold countPart
      simp only [bind, Option.bind, hsome, hkeyword, hsome', hcount]
    exact ⟨some n, Reads.readsOptional ⟨rest, hpart, hrest⟩, rfl⟩
  · next hwrites =>
    -- A count that is left out is the usual one.
    have husual : n = usual := by
      rw [Bool.or_eq_true, not_or, bne_iff_ne, not_not] at hwrites
      exact hwrites.2
    exact ⟨none, readsOptional_none (h.part_eq_none hus hw) h, husual.symm⟩

/-- Further fields are read one after another, each after a comma. -/
theorem moreFields_eq {names : List String} {fuel : Nat}
    (h : Follows (Query.furtherNames names) s) (hnames : ∀ n ∈ names, '"' ∉ n.toList)
    (hfuel : (Query.furtherNames names).length ≤ fuel) :
    moreFields fuel s = (names, []) := by
  induction names generalizing s fuel with
  | nil =>
    rw [show s = [] from h]
    cases fuel <;> rfl
  | cons n names ih =>
    obtain ⟨hn, hnames⟩ := List.forall_mem_cons.mp hnames
    rw [Query.furtherNames, List.length_cons, List.length_cons] at hfuel
    cases fuel with
    | zero => omega
    | succ fuel =>
      obtain ⟨r, hcomma, hr⟩ := h.skip.2.passes_symbol fun _ hword => hword
      obtain ⟨r', hfield, hr'⟩ := hr.skip.2.reads_field hn
      have hnext : ((symbol ',' (spaces s)).bind fun s => field (spaces s)) = some (n, r') := by
        rw [hcomma]
        exact hfield
      have hlength : (Query.furtherNames names).length ≤ fuel := by omega
      have hmore := ih hr' hnames hlength
      rw [moreFields, hnext]
      dsimp only
      rw [hmore]

theorem Follows.reads_select {names : Option (List String)}
    (h : Follows (Query.selectTokens names) s)
    (hnames : ∀ ns ∈ names, ns ≠ [] ∧ ∀ n ∈ ns, '"' ∉ n.toList) :
    ReadsOptional selectPart s names [] := by
  match names with
  | none => exact readsOptional_none (Follows.part_eq_none h endsBefore_nil (by decide)) h
  | some [] => exact absurd rfl (hnames [] rfl).1
  | some (n :: names) =>
    obtain ⟨hn, hnames⟩ := List.forall_mem_cons.mp (hnames _ rfl).2
    obtain ⟨r, hsome, hselect, hsome', hr⟩ := h.passes_word
    have hstar : symbol '*' (spaces r) = none := hr.symbol_of_name (by decide) (by decide)
    obtain ⟨r', hfield, hr'⟩ := hr.reads_field hn
    have hmore := moreFields_eq hr' hnames hr'.length_le
    have hpart : selectPart s = some (n :: names, []) := by
      unfold selectPart
      simp only [bind, Option.bind, hsome, hselect, hsome', hstar, hfield, hmore]
      rfl
    exact Reads.readsOptional ⟨[], hpart, rfl⟩

theorem Written.reads_header (h : Written (.word "find" :: .target q.find :: us) s)
    (hfind : '"' ∉ q.find.toList) :
    ∃ rest, header s = .ok (q.find, rest) ∧ Follows us rest := by
  obtain ⟨r, hkeyword, hr⟩ := h.passes_keyword
  obtain ⟨hsome, hwritten⟩ := hr.skip
  obtain ⟨rest, htarget, hrest⟩ := hwritten.reads_target hfind
  obtain ⟨hpart, hend⟩ := keyword_eq_some_iff_wordPart.mp hkeyword
  refine ⟨rest, ?_, hrest⟩
  unfold header
  rw [h.isSolid.spaces_eq]
  dsimp only
  rw [hpart]
  dsimp only
  rw [hend, if_neg (by decide), hsome]
  dsimp only
  rw [htarget]

/-! ### Whole queries -/

theorem Written.reads_query {style : Query.Style} (h : Written (q.tokens style) s)
    (hq : q.IsPlain) : query s = .ok (q, []) := by
  -- A part that is missing is not mistaken for a later one, and a later one ends the conditions.
  have hselectEnds : EndsBefore ["offset"] (Query.selectTokens q.select) :=
    endsBefore_selectTokens (by decide) q.select
  have hoffsetEnds : EndsBefore ["limit"] (q.offsetTokens style) :=
    endsBefore_offsetTokens (by decide) (by decide) style q
  have hlimitEnds : EndsBefore ["order"] (q.limitTokens style) :=
    endsBefore_limitTokens (by decide) (by decide) (by decide) style q
  have horderEnds : EndsBefore ("where" :: Level.disjunction.barred)
      (Query.orderTokens q.orderBy ++ q.limitTokens style) :=
    (endsBefore_orderTokens (by decide) _).append
      (endsBefore_limitTokens (by decide) (by decide) (by decide) style q)
  obtain ⟨s₁, hheader, h₁⟩ := h.reads_header hq.find
  obtain ⟨e?, ⟨s₂, hwhere, h₂⟩, hconditions⟩ :=
    h₁.reads_conditions hq.conditions hq.ungrouped horderEnds
  obtain ⟨s₃, horder, h₃⟩ := h₂.reads_orderBy hq.orderBy hlimitEnds
  obtain ⟨limit?, ⟨s₄, hlimitPart, h₄⟩, hlimit⟩ := h₃.reads_count hq.limit hoffsetEnds
  obtain ⟨offset?, ⟨s₅, hoffsetPart, h₅⟩, hoffset⟩ := h₄.reads_count hq.offset hselectEnds
  obtain ⟨s₆, hselect, h₆⟩ := h₅.reads_select hq.select
  unfold query
  rw [hheader]
  simp only [bind, Except.bind, hwhere, horder, hlimitPart, hoffsetPart, hselect, hconditions,
    hlimit, hoffset]
  rw [show s₆ = [] from h₆]
  rfl

end Language

/-- **Query texts read back**: a query that can be written is what its text denotes, in any letter
case of the keywords and with any spaces between the tokens. -/
theorem Query.ofText_written (q : Query) (hq : q.IsPlain) (style : Query.Style) (text : String)
    (h : Written (q.tokens style) text.toList) : ofText text = .ok q := by
  unfold ofText
  rw [h.isSolid.trimList_eq, h.reads_query hq]
  rfl

/-- A query with a group in a group and a negation. -/
def Query.sample : Query where
  find := "weekly review"
  conditions := [
    .group .any [
      .group .all [.clause ⟨"Points", .compare .atLeast, .integer (-3), false⟩,
        .clause ⟨"parent.tags", .missing, .bool true, true⟩] false,
      .group .any [.clause ⟨"Status", .contains, .text "to do", false⟩,
        .clause ⟨"not", .present, .bool true, false⟩] true] false]
  orderBy := some ⟨"created", true⟩
  select := some ["Status", "Due date"]
  limit := 20
  offset := 0

/-- The sample as a text, with one space between the tokens. The offset is the usual one. -/
def Query.sampleText : String :=
  "find \"weekly review\" where Points >= -3 and not parent.tags is empty or " ++
    "not ( Status ~ \"to do\" or \"not\" exists ) order by created desc limit 20 " ++
    "select Status , \"Due date\""

theorem Query.ofText_written_sample :
    sample.IsPlain ∧ Written (sample.tokens ⟨false, false, false⟩) sampleText.toList ∧
      ofText sampleText = .ok sample := by
  have hconditions : ∀ e ∈ sample.conditions, e.IsPlain := List.forall_mem_singleton.mpr
    ⟨by decide, ⟨by decide, ⟨by decide, trivial⟩, ⟨by decide, rfl⟩, trivial⟩,
      ⟨by decide, ⟨by decide, show '"' ∉ "to do".toList by decide⟩, ⟨by decide, rfl⟩, trivial⟩,
      trivial⟩
  have hplain : sample.IsPlain :=
    { find := by decide
      conditions := hconditions
      ungrouped := fun members h => by cases h
      orderBy := fun key h => by rw [← Option.some.inj h]; decide
      limit := by decide
      offset := by decide
      select := fun names h => by rw [← Option.some.inj h]; decide }
  have htext : plainText (sample.tokens ⟨false, false, false⟩) = sampleText.toList := by
    decide +kernel
  have hwritten : Written (sample.tokens ⟨false, false, false⟩) sampleText.toList :=
    htext ▸ written_plainText _
  exact ⟨hplain, hwritten, ofText_written sample hplain _ sampleText hwritten⟩

end GraphIndex
