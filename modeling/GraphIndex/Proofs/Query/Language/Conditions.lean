import GraphIndex.Proofs.Plan.Numbering
import GraphIndex.Proofs.Query.Language.Tokens

/-!
# Conditions in query texts

The tokens of a condition (`Entry.tokens`), and how those of a single clause are read
(`Written.reads_unary`). A clause may stand before anything that does not carry it on
(`EndsBefore`). Its field may look like the word that negates a condition: what stands after that
word is then no condition, so the clause is read as a whole (`Written.unary_after_name`).
-/

namespace GraphIndex

/-! ### Conditions as tokens -/

/-- The word that joins the members of a group. -/
def Connective.joint : Connective → Language.Keyword
  | .all => ⟨"and", by decide⟩
  | .any => ⟨"or", by decide⟩

namespace Clause

/-- The tokens of what is asked of a field. -/
def testTokens (c : Clause) : List Language.Token :=
  match c.operator with
  | .present => [.word "exists"]
  | .missing => [.word "is", .word "empty"]
  | op => [.operator op, Language.valueToken c.value]

/-- The tokens of a condition on a field, without its negation. -/
def tokens (c : Clause) : List Language.Token := .name c.field :: c.testTokens

/-- Whether a clause can be written: it compares a field with a plain value, or tests the field for
presence or absence. -/
def IsPlain (c : Clause) : Prop :=
  '"' ∉ c.field.toList ∧
    if c.operator.isExistenceTest then c.value = .bool true else c.value.IsPlain

end Clause

namespace Entry

mutual

/-- The tokens of a condition inside a group. Only conditions joined by `and` inside a group joined
by `or` go without parentheses. -/
def tokens (inside : Connective) : Entry → List Language.Token
  | clause c => if c.negated then .word "not" :: c.tokens else c.tokens
  | group kind members negated =>
    if negated then .word "not" :: .opening :: (joinedTokens kind members ++ [.closing])
    else if kind = .all ∧ inside = .any then joinedTokens kind members
    else .opening :: (joinedTokens kind members ++ [.closing])

/-- The tokens of conditions with a joining word between them. -/
def joinedTokens (kind : Connective) : List Entry → List Language.Token
  | [] => []
  | e :: rest => e.tokens kind ++ furtherTokens kind rest

/-- The tokens of conditions with a joining word before each. -/
def furtherTokens (kind : Connective) : List Entry → List Language.Token
  | [] => []
  | e :: rest => .keyword kind.joint :: (e.tokens kind ++ furtherTokens kind rest)

end

mutual

/-- Whether a condition can be written: all groups have at least two members, and all clauses can
be written. -/
def IsPlain : Entry → Prop
  | clause c => c.IsPlain
  | group _ members _ => 2 ≤ members.length ∧ AllPlain members

/-- The same for every condition of a list. -/
def AllPlain : List Entry → Prop
  | [] => True
  | e :: rest => e.IsPlain ∧ AllPlain rest

end

theorem allPlain_iff {es : List Entry} : AllPlain es ↔ ∀ e ∈ es, e.IsPlain := by
  induction es with
  | nil => exact ⟨fun _ e he => absurd he List.not_mem_nil, fun _ => trivial⟩
  | cons e es ih => rw [AllPlain, ih, List.forall_mem_cons]

end Entry

namespace Language

variable {s : List Char} {ts us : List Token} {e : Entry} {fuel : Nat}

/-! ### Ends of conditions -/

/-- Whether what stands after a condition ends it: nothing, a closing parenthesis, or a keyword
other than the given ones. -/
def EndsBefore (words : List String) : List Token → Prop
  | [] | .closing :: _ => True
  | .keyword k :: _ => k.text ∉ words
  | _ => False

theorem EndsBefore.mono {words words' : List String} (h : EndsBefore words us)
    (hsub : words' ⊆ words) : EndsBefore words' us := by
  cases us with
  | nil => trivial
  | cons t us =>
    cases t with
    | keyword k => exact fun hmem => h (hsub hmem)
    | closing => trivial
    | _ => exact h.elim

/-- What ends a condition is nothing, or begins with a letter or a closing parenthesis. -/
theorem Follows.next {words : List String} (h : Follows us s) (hus : EndsBefore words us) :
    someSpaces s = none ∧ spaces s = [] ∨ someSpaces s = some (spaces s) ∧
      ((∃ k ts, k.text ∉ words ∧ Written (.keyword k :: ts) (spaces s))
        ∨ ∃ r, spaces s = ')' :: r) := by
  cases us with
  | nil =>
    rw [show s = [] from h]
    exact .inl ⟨rfl, rfl⟩
  | cons t us =>
    obtain ⟨hsome, hwritten⟩ := h.skip
    refine .inr ⟨hsome, ?_⟩
    cases t with
    | keyword k => exact .inl ⟨k, us, hus, hwritten⟩
    | closing =>
      obtain ⟨word, rest, hword, -, hs⟩ := hwritten
      rw [show word = [')'] from hword] at hs
      exact .inr ⟨rest, hs⟩
    | _ => exact hus.elim

theorem Follows.keyword_eq_none {words : List String} {w : String} (h : Follows us s)
    (hus : EndsBefore words us) (hmem : w ∈ words) (hw : isWord w = true) :
    (someSpaces s).bind (keyword w) = none := by
  rcases h.next hus with ⟨hsome, -⟩ | ⟨hsome, ⟨k, ts, hk, hwritten⟩ | ⟨r, hr⟩⟩
  · rw [hsome]
    rfl
  · rw [hsome]
    exact hwritten.keyword_of_ne hw fun heq => hk (heq ▸ hmem)
  · rw [hsome, hr]
    exact keyword_cons_eq_none hw (by decide)

theorem Written.exists_cons_of_keyword {k : Keyword} (h : Written (.keyword k :: ts) s) :
    ∃ c r, s = c :: r ∧ isWordChar c = true := by
  obtain ⟨word, rest, hword, -, rfl⟩ := h
  cases word with
  | nil => exact absurd rfl (Token.Spelled.isSolid (t := .keyword k) hword).ne_nil
  | cons c word =>
    exact ⟨c, word ++ rest, rfl, isWordChar_of_mem k.isWord hword c List.mem_cons_self⟩

theorem operator_cons_eq_none {c : Char} (hc : c ∉ ['>', '<', '!', '=', '~']) :
    operator (c :: s) = none := by
  simp only [List.mem_cons, List.not_mem_nil, or_false, not_or] at hc
  obtain ⟨hgreater, hless, hnot, hequal, hcontains⟩ := hc
  unfold operator
  split
  all_goals first
    | rfl
    | next heq => exact absurd (List.cons.inj heq).1 (by assumption)

theorem existenceTest_of_words {s' : List Char} (hsome : someSpaces s = some s')
    (hexists : keyword "exists" s' = none) (his : keyword "is" s' = none) :
    existenceTest s = none := by
  unfold existenceTest emptiness
  rw [hsome]
  show ((keyword "exists" s').map _ <|> (keyword "is" s').bind _) = none
  rw [hexists, his]
  rfl

theorem Follows.existenceTest_eq_none (h : Follows us s) (hus : EndsBefore ["exists", "is"] us) :
    existenceTest s = none := by
  have hexists := h.keyword_eq_none hus (w := "exists") (by decide) (by decide)
  have his := h.keyword_eq_none hus (w := "is") (by decide) (by decide)
  cases hs : someSpaces s with
  | none =>
    unfold existenceTest
    rw [hs]
    rfl
  | some s' =>
    rw [hs] at hexists his
    exact existenceTest_of_words hs hexists his

theorem Follows.comparison_eq_none {words : List String} (h : Follows us s)
    (hus : EndsBefore words us) : comparison s = none := by
  -- What may follow is a word or a closing parenthesis, and no operator begins like them.
  have hoperator : operator (spaces s) = none := by
    rcases h.next hus with ⟨-, hs⟩ | ⟨-, ⟨k, ts, -, hwritten⟩ | ⟨r, hs⟩⟩
    · rw [hs]
      rfl
    · obtain ⟨c, r, hs, hc⟩ := hwritten.exists_cons_of_keyword
      rw [hs]
      refine operator_cons_eq_none fun hmem => ?_
      have hnone : ['>', '<', '!', '=', '~'].all (fun c => !isWordChar c) = true := by decide
      have hword := List.all_eq_true.mp hnone c hmem
      rw [hc] at hword
      cases hword
    · rw [hs]
      exact operator_cons_eq_none (by decide)
  unfold comparison
  rw [hoperator]
  rfl

/-! ### Single conditions -/

/-- Where an operator begins, no word does, and nothing in quotes or parentheses. -/
theorem exists_cons_of_symbol {op : Operator} (hop : op.isExistenceTest = false) :
    ∃ c r, op.symbol.toList = c :: r ∧ isWordChar c = false ∧ c ∉ ['(', '"', '\x27'] := by
  cases op with
  | present => cases hop
  | missing => cases hop
  | contains => exact ⟨_, _, rfl, by decide, by decide⟩
  | compare comparison => cases comparison <;> exact ⟨_, _, rfl, by decide, by decide⟩

variable {c : Clause}

theorem Follows.reads_existenceTest_present (h : Follows (.word "exists" :: us) s) :
    Reads (existenceTest s) .present us := by
  obtain ⟨hsome, hwritten⟩ := h.skip
  obtain ⟨rest, hkeyword, hrest⟩ := hwritten.passes_keyword
  refine ⟨rest, ?_, hrest⟩
  unfold existenceTest
  rw [hsome]
  show ((keyword "exists" (spaces s)).map _ <|> _) = _
  rw [hkeyword]
  rfl

/-- Behind "is" stands whether the field is empty. -/
theorem Follows.existenceTest_eq_emptiness (h : Follows (.word "is" :: us) s) :
    existenceTest s = emptiness (spaces s) ∧
      ∃ r, keyword "is" (spaces s) = some r ∧ Follows us r := by
  obtain ⟨hsome, hwritten⟩ := h.skip
  have hexists : keyword "exists" (spaces s) = none :=
    hwritten.keyword_of_ne (by decide) (by decide)
  refine ⟨?_, hwritten.passes_keyword⟩
  unfold existenceTest
  rw [hsome]
  show ((keyword "exists" (spaces s)).map _ <|> emptiness (spaces s)) = _
  rw [hexists]
  rfl

theorem Follows.reads_existenceTest_missing (h : Follows (.word "is" :: .word "empty" :: us) s) :
    Reads (existenceTest s) .missing us := by
  obtain ⟨hempties, r, his, hr⟩ := h.existenceTest_eq_emptiness
  obtain ⟨hsome, hwritten⟩ := hr.skip
  obtain ⟨rest, hempty, hrest⟩ := hwritten.passes_keyword
  have hnot : keyword "not" (spaces r) = none := hwritten.keyword_of_ne (by decide) (by decide)
  refine ⟨rest, ?_, hrest⟩
  rw [hempties]
  unfold emptiness
  rw [his]
  show (someSpaces r).bind _ = _
  rw [hsome]
  show ((keyword "not" (spaces r)).bind _ <|> (keyword "empty" (spaces r)).bind _) = _
  rw [hnot, hempty]
  rfl

theorem Follows.existenceTest_of_operator {op : Operator} (h : Follows (.operator op :: us) s)
    (hop : op.isExistenceTest = false) : existenceTest s = none := by
  obtain ⟨hsome, word, rest, hword, -, hs⟩ := h.skip
  obtain ⟨c, r, hsymbol, hc, -⟩ := exists_cons_of_symbol hop
  rw [show word = op.symbol.toList from hword, hsymbol] at hs
  rw [hs] at hsome
  exact existenceTest_of_words hsome (keyword_cons_eq_none (by decide) hc)
    (keyword_cons_eq_none (by decide) hc)

/-- Reads what is asked of a field: an operator and a value. -/
def test (s : List Char) : Option ((Operator × Operand) × List Char) :=
  (existenceTest s).map (fun (op, s) => ((op, .bool true), s)) <|> comparison s

theorem Follows.reads_test (h : Follows (c.testTokens ++ us) s) (hc : c.IsPlain) :
    Reads (test s) (c.operator, c.value) us := by
  -- The six comparisons and the search for a text are written alike.
  have hcompared : ∀ op, c.operator = op → op.isExistenceTest = false →
      c.testTokens = [.operator op, valueToken c.value] →
      Reads (test s) (c.operator, c.value) us := by
    intro op hop hexistence htokens
    have hvalue : c.value.IsPlain := by
      have hvalue := hc.2
      rwa [hop, hexistence, if_neg (by decide)] at hvalue
    rw [htokens] at h
    obtain ⟨rest, hread, hrest⟩ := h.reads_comparison hexistence hvalue
    refine ⟨rest, ?_, hrest⟩
    unfold test
    rw [h.existenceTest_of_operator hexistence, hread, hop]
    rfl
  obtain ⟨field, operator, value, negated⟩ := c
  cases operator with
  | present =>
    obtain ⟨rest, hread, hrest⟩ := h.reads_existenceTest_present
    refine ⟨rest, ?_, hrest⟩
    unfold test
    rw [hread, show value = .bool true from hc.2]
    rfl
  | missing =>
    obtain ⟨rest, hread, hrest⟩ := h.reads_existenceTest_missing
    refine ⟨rest, ?_, hrest⟩
    unfold test
    rw [hread, show value = .bool true from hc.2]
    rfl
  | contains => exact hcompared _ rfl rfl rfl
  | compare comparison => exact hcompared _ rfl rfl rfl

/-- A clause is read, without its negation. -/
theorem Written.reads_condition (h : Written (c.tokens ++ us) s) (hc : c.IsPlain) :
    Reads (condition s) (.clause { c with negated := false }) us := by
  obtain ⟨r, hfield, hr⟩ := h.reads_field hc.1
  obtain ⟨rest, htest, hrest⟩ := hr.reads_test hc
  refine ⟨rest, ?_, hrest⟩
  unfold condition
  rw [hfield]
  show (test r).bind _ = _
  rw [htest]
  rfl

/-! ### Negations and parentheses -/

theorem unary_of_not {r s' : List Char} (hnot : keyword "not" s = some r)
    (hread : unary fuel (spaces r) = some (e, s')) :
    unary (fuel + 1) s = some (e.negate, s') := by
  rw [unary, hnot]
  show ((unary fuel (spaces r)).bind _ <|> _) = _
  rw [hread]
  rfl

theorem unary_of_opening {r s' s'' : List Char} (hnot : keyword "not" s = none)
    (hopening : symbol '(' s = some r) (hread : orChain fuel (spaces r) = some (e, s'))
    (hclosing : symbol ')' (spaces s') = some s'') : unary (fuel + 1) s = some (e, s'') := by
  rw [unary, hnot, hopening]
  show (none <|> (((orChain fuel (spaces r)).bind _) <|> _)) = _
  rw [hread]
  show (none <|> ((symbol ')' (spaces s')).bind _ <|> _)) = _
  rw [hclosing]
  rfl

/-- What is neither a negation nor in parentheses is a single condition. -/
theorem unary_of_neither (hnot : ∀ r, keyword "not" s = some r → unary fuel (spaces r) = none)
    (hopening : symbol '(' s = none) : unary (fuel + 1) s = condition s := by
  rw [unary, hopening]
  cases hkeyword : keyword "not" s with
  | none => rfl
  | some r =>
    show ((unary fuel (spaces r)).bind _ <|> _) = _
    rw [hnot r hkeyword]
    rfl

theorem condition_eq_none {n : String} {r : List Char} (hfield : field s = some (n, r))
    (hexistence : existenceTest r = none) (hcomparison : comparison r = none) :
    condition s = none := by
  unfold condition
  rw [hfield]
  show (test r).bind _ = _
  unfold test
  rw [hexistence, hcomparison]
  rfl

/-- No condition begins with a sign. -/
theorem unary_cons_eq_none {d : Char} (hword : isWordChar d = false)
    (hd : d ∉ ['(', '"', '\x27']) (fuel : Nat) : unary fuel (d :: s) = none := by
  simp only [List.mem_cons, List.not_mem_nil, or_false, not_or] at hd
  obtain ⟨hopening, hdouble, hsingle⟩ := hd
  have hstarts : ¬ startsName d = true := fun h =>
    Bool.false_ne_true (hword.symm.trans (isWordChar_of_startsName h))
  have hfield : field (d :: s) = none := by
    unfold field
    rw [quoted_cons_eq_none hdouble hsingle, name, if_neg hstarts]
    rfl
  -- The character begins no negation, no parenthesis and no field.
  have hnot : keyword "not" (d :: s) = none := keyword_cons_eq_none (by decide) hword
  cases fuel with
  | zero => rfl
  | succ fuel =>
    rw [unary_of_neither (fun r hr => absurd (hnot.symm.trans hr) (by rintro ⟨⟩)) (if_neg hopening)]
    unfold condition
    rw [hfield]
    rfl

/-- No condition begins with a keyword that nothing carries on. -/
theorem Written.unary_eq_none {k : Keyword} (h : Written (.keyword k :: us) s)
    (hk : k.text ≠ "not") (hus : EndsBefore ["exists", "is"] us) (fuel : Nat) :
    unary fuel s = none := by
  have hnot := h.keyword_of_ne (w := "not") (by decide) hk
  obtain ⟨word, rest, hword, hrest, rfl⟩ := h
  have hidentifier := isIdentifier_of_isWord k.isWord hword
  cases fuel with
  | zero => rfl
  | succ fuel =>
    rw [unary_of_neither (fun r hr => absurd (hnot.symm.trans hr) (by rintro ⟨⟩))
      (symbol_append_eq_none hidentifier (by decide))]
    exact condition_eq_none (field_append hidentifier hrest.endsWord)
      (hrest.existenceTest_eq_none hus) (hrest.comparison_eq_none hus)

/-- What is asked of a field is no condition by itself. -/
theorem Follows.unary_test_eq_none (h : Follows (c.testTokens ++ us) s) (hc : c.IsPlain)
    (hus : EndsBefore ["exists", "is"] us) (fuel : Nat) : unary fuel (spaces s) = none := by
  -- After a name comes an operator, with which no condition begins, or the word of a test.
  have hcompared : ∀ op, op.isExistenceTest = false →
      c.testTokens = [.operator op, valueToken c.value] → unary fuel (spaces s) = none := by
    intro op hop htokens
    rw [htokens] at h
    obtain ⟨-, word, rest, hword, -, hs⟩ := h.skip
    obtain ⟨d, r, hsymbol, hd, hquotes⟩ := exists_cons_of_symbol hop
    rw [hs, show word = op.symbol.toList from hword, hsymbol]
    exact unary_cons_eq_none hd hquotes fuel
  obtain ⟨field, operator, value, negated⟩ := c
  cases operator with
  | present => exact h.skip.2.unary_eq_none (by decide) hus fuel
  | missing =>
    have hempty : EndsBefore ["exists", "is"] (.word "empty" :: us) :=
      show "empty" ∉ ["exists", "is"] by decide
    exact h.skip.2.unary_eq_none (by decide) hempty fuel
  | contains => exact hcompared _ rfl rfl
  | compare comparison => exact hcompared _ rfl rfl

/-- A name is not read as a negation, even if it begins like one. -/
theorem Written.unary_after_name {n : String} (h : Written (.name n :: ts) s)
    (hts : ∀ r, Follows ts r → unary fuel (spaces r) = none) :
    ∀ r, keyword "not" s = some r → unary fuel (spaces r) = none := by
  intro r hr
  obtain ⟨word, rest, hword, hrest, rfl⟩ := h
  rcases hword with rfl | ⟨rfl, hidentifier, -⟩
  · have hnone : keyword "not" (inQuotes n ++ rest) = none :=
      keyword_cons_eq_none (by decide) (by decide)
    cases hnone.symm.trans hr
  · obtain ⟨-, rfl⟩ := (keyword_eq_some_iff (by decide)).mp hr
    rcases isIdentifier_cases hidentifier with hall | ⟨u, v, hsplit, hu⟩
    · rw [(span_append hall (hrest.endsWord.not (by decide))).2]
      exact hts rest hrest
    · -- The word `not` and a minus sign: no condition begins with the sign.
      have hminus : ∀ c ∈ ('-' :: (v ++ rest)).head?, isWordChar c = false := by
        rintro c hc
        rw [← Option.some.inj hc]
        decide
      rw [hsplit, List.append_assoc, List.cons_append, (span_append hu hminus).2]
      exact unary_cons_eq_none (by decide) (by decide) fuel

/-- A clause is read as a condition, unless something carries it on. -/
theorem Written.reads_unary (h : Written (c.tokens ++ us) s) (hc : c.IsPlain)
    (hus : EndsBefore ["exists", "is"] us) (fuel : Nat) :
    Reads (unary (fuel + 1) s) (.clause { c with negated := false }) us := by
  have hopening : symbol '(' s = none := h.symbol_of_name (by decide) (by decide)
  have hnot := h.unary_after_name fun r hr => hr.unary_test_eq_none hc hus fuel
  rw [unary_of_neither hnot hopening]
  exact h.reads_condition hc

end Language

end GraphIndex
