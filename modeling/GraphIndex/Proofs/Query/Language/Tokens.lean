import GraphIndex.Proofs.Query.Language.Words
import GraphIndex.Query.Language.Grammar

/-!
# Rows of tokens

A query text is a row of tokens with spaces between them (`Written`); what stands after a token is
spaces and the remaining tokens (`Follows`). Every row of tokens has a text (`written_plainText`),
and no text of tokens loses anything where it is trimmed (`IsSolid.trimList_eq`). Every reader takes
the token in front of it whole and leaves what follows (`Written.passes_keyword`,
`Written.reads_field`, `Follows.reads_comparison`).
-/

namespace GraphIndex

/-- Whether a value is an integer, or a text without double quotes. -/
def Operand.IsPlain : Operand → Prop
  | .integer _ => True
  | .text t => '"' ∉ t.toList
  | _ => False

namespace Language

/-- A keyword, in small letters. -/
structure Keyword where
  text : String
  isWord : isWord text = true

/-- The smallest parts of a query text. -/
inductive Token where
  | keyword (keyword : Keyword)
  /-- The name of a field. -/
  | name (name : String)
  | target (target : String)
  | operator (operator : Operator)
  | text (text : String)
  | integer (value : Int64)
  | opening
  | closing
  | comma

namespace Token

/-- The token of a keyword. -/
def word (text : String) (h : isWord text = true := by decide) : Token := keyword ⟨text, h⟩

/-- Whether a word stands for a token. Keywords are written in any letter case. A name may stand in
double quotes, or bare where it is an identifier other than `not`; a target may be bare even then,
or the star for every node. -/
def Spelled : Token → List Char → Prop
  | keyword k, word => word.map Char.toLower = k.text.toList
  | name n, word => word = inQuotes n ∨ word = n.toList ∧ isIdentifier word = true ∧ n ≠ "not"
  | target t, word => word = inQuotes t ∨ word = t.toList ∧ (isIdentifier word = true ∨ t = anyNode)
  | operator op, word => word = op.symbol.toList
  | text t, word => word = inQuotes t
  | integer i, word => word = Json.intChars i.toInt
  | opening, word => word = ['(']
  | closing, word => word = [')']
  | comma, word => word = [',']

end Token

/-- Whether a text is spaces and tokens, with spaces before every token. -/
def Follows : List Token → List Char → Prop
  | [], s => s = []
  | t :: ts, s => ∃ gap word rest, gap ≠ [] ∧ (∀ c ∈ gap, isSpace c = true) ∧ t.Spelled word
      ∧ Follows ts rest ∧ s = gap ++ (word ++ rest)

/-- Whether a text is a row of tokens, with spaces between them. -/
def Written : List Token → List Char → Prop
  | [], s => s = []
  | t :: ts, s => ∃ word rest, t.Spelled word ∧ Follows ts rest ∧ s = word ++ rest

/-- The plain word for a token: keywords in small letters, names bare where they can be. -/
def Token.plain : Token → List Char
  | keyword k => k.text.toList
  | name n => if isIdentifier n.toList && n != "not" then n.toList else inQuotes n
  | target t => if isIdentifier t.toList || t == anyNode then t.toList else inQuotes t
  | operator op => op.symbol.toList
  | text t => inQuotes t
  | integer i => Json.intChars i.toInt
  | opening => ['(']
  | closing => [')']
  | comma => [',']

/-- The plain text of a row of tokens, with one space between them. -/
def plainText : List Token → List Char
  | [] => []
  | [t] => t.plain
  | t :: ts => t.plain ++ (' ' :: plainText ts)

variable {s word rest : List Char} {t : Token} {ts : List Token}

theorem Token.spelled_plain (t : Token) : t.Spelled t.plain := by
  cases t with
  | keyword k =>
    show k.text.toList.map Char.toLower = k.text.toList
    have hlower := List.all_eq_true.mp (Bool.and_eq_true_iff.mp k.isWord).2
    rw [List.map_congr_left fun c hc => toLower_of_isLower (hlower c hc), List.map_id']
  | name n =>
    rw [plain]
    split
    · next h =>
      rw [Bool.and_eq_true, bne_iff_ne] at h
      exact .inr ⟨rfl, h⟩
    · exact .inl rfl
  | target n =>
    rw [plain]
    split
    · next h =>
      rw [Bool.or_eq_true, beq_iff_eq] at h
      exact .inr ⟨rfl, h⟩
    · exact .inl rfl
  | operator | text | integer | opening | closing | comma => rfl

/-- Every row of tokens has a text. -/
theorem written_plainText (ts : List Token) : Written ts (plainText ts) := by
  -- One blank stands between two words.
  have hfollows : ∀ t ts, Written (t :: ts) (plainText (t :: ts)) →
      Follows (t :: ts) (' ' :: plainText (t :: ts)) := by
    rintro t ts ⟨word, rest, hword, hrest, hs⟩
    refine ⟨[' '], word, rest, List.cons_ne_nil _ _, ?_, hword, hrest, by rw [hs]; rfl⟩
    rintro c (_ | ⟨_, hc⟩)
    · rfl
    · cases hc
  induction ts with
  | nil => rfl
  | cons t ts ih =>
    cases ts with
    | nil => exact ⟨t.plain, [], t.spelled_plain, rfl, (List.append_nil _).symm⟩
    | cons u ts =>
      exact ⟨t.plain, ' ' :: plainText (u :: ts), t.spelled_plain, hfollows u ts ih, rfl⟩

/-! ### Ends of words -/

/-- Whether no blank ends a text. -/
def EndsSolid (s : List Char) : Prop := ∀ c ∈ s.getLast?, Text.isBlank c = false

theorem EndsSolid.append (hword : EndsSolid word) (hrest : EndsSolid rest) :
    EndsSolid (word ++ rest) := by
  intro c hc
  rw [List.getLast?_append, Option.mem_def, Option.or_eq_some_iff] at hc
  rcases hc with hc | ⟨-, hc⟩
  · exact hrest c hc
  · exact hword c hc

/-- A text of at least one character, without blanks at its ends. -/
structure IsSolid (word : List Char) : Prop where
  ne_nil : word ≠ []
  first : ∀ c ∈ word.head?, Text.isBlank c = false
  last : EndsSolid word

theorem isSolid_of_forall (hne : word ≠ []) (h : ∀ c ∈ word, Text.isBlank c = false) :
    IsSolid word :=
  ⟨hne, fun c hc => h c (List.mem_of_mem_head? hc), fun c hc => h c (List.mem_of_mem_getLast? hc)⟩

theorem isSolid_of_all (hne : word ≠ []) (h : word.all (fun c => !Text.isBlank c) = true) :
    IsSolid word := by
  refine isSolid_of_forall hne fun c hc => ?_
  rw [← Bool.not_eq_true']
  exact List.all_eq_true.mp h c hc

theorem isSolid_inQuotes (t : String) : IsSolid (inQuotes t) := by
  refine ⟨List.cons_ne_nil _ _, ?_, ?_⟩
  · intro c hc
    obtain rfl := Option.some.inj hc
    rfl
  · intro c hc
    unfold inQuotes at hc
    rw [← List.cons_append, List.getLast?_append] at hc
    obtain rfl := Option.some.inj hc
    rfl

/-- Trimming takes nothing off. -/
theorem IsSolid.trimList_eq (h : IsSolid s) : Text.trimList s = s := by
  have hlast : s.reverse.dropWhile Text.isBlank = s.reverse :=
    dropWhile_eq_self (by rw [List.head?_reverse]; exact h.last)
  unfold Text.trimList Text.dropBlanksEnd
  rw [dropWhile_eq_self h.first, hlast, List.reverse_reverse]

theorem isSolid_of_isIdentifier (h : isIdentifier word = true) : IsSolid word := by
  cases word with
  | nil => cases h
  | cons c word =>
    obtain ⟨hfirst, hinside⟩ := isIdentifier_cons.mp h
    refine isSolid_of_forall (List.cons_ne_nil _ _) ?_
    rintro d (_ | ⟨_, hd⟩)
    · exact not_isBlank_of_inName (inName_of_startsName hfirst)
    · exact not_isBlank_of_inName (hinside d hd)

theorem Token.Spelled.isSolid (h : t.Spelled word) : IsSolid word := by
  cases t with
  | keyword k => exact isSolid_of_isIdentifier (isIdentifier_of_isWord k.isWord h)
  | name n =>
    rcases h with rfl | ⟨-, hword, -⟩
    · exact isSolid_inQuotes n
    · exact isSolid_of_isIdentifier hword
  | target n =>
    rcases h with rfl | ⟨rfl, hword | rfl⟩
    · exact isSolid_inQuotes n
    · exact isSolid_of_isIdentifier hword
    · exact isSolid_of_all (by decide) (by decide)
  | operator op =>
    subst h
    cases op with
    | compare comparison =>
      cases comparison <;> exact isSolid_of_all (by decide) (by decide)
    | contains | present | missing => exact isSolid_of_all (by decide) (by decide)
  | text n =>
    subst h
    exact isSolid_inQuotes n
  | integer i =>
    subst h
    refine isSolid_of_forall (intChars_ne_nil _) fun c hc => ?_
    have hvalue := inValue_intChars _ c hc
    unfold inValue at hvalue
    simp only [Bool.and_eq_true, Bool.not_eq_true'] at hvalue
    exact hvalue.1.1
  | opening | closing | comma =>
    subst h
    exact isSolid_of_all (by decide) (by decide)

theorem Follows.endsWord (h : Follows ts s) : EndsWord s := by
  cases ts with
  | nil =>
    rw [show s = [] from h]
    exact endsWord_nil
  | cons t ts =>
    obtain ⟨gap, word, rest, hne, hgap, -, -, rfl⟩ := h
    cases gap with
    | nil => exact absurd rfl hne
    | cons c gap =>
      intro d hd
      rw [← Option.some.inj hd]
      exact hgap c List.mem_cons_self

/-- A text of tokens begins with its first token and ends with its last. -/
theorem Written.isSolid (h : Written (t :: ts) s) : IsSolid s := by
  induction ts generalizing t s with
  | nil =>
    obtain ⟨word, rest, hword, rfl, rfl⟩ := h
    rw [List.append_nil]
    exact hword.isSolid
  | cons u ts ih =>
    obtain ⟨word, rest, hword, ⟨gap, word', rest', -, -, hword', hrest', rfl⟩, rfl⟩ := h
    -- The text begins like its first word and ends like its last.
    have hnext : IsSolid (word' ++ rest') := ih ⟨word', rest', hword', hrest', rfl⟩
    refine ⟨?_, ?_, ?_⟩
    · exact List.append_ne_nil_of_left_ne_nil hword.isSolid.ne_nil _
    · intro c hc
      rw [List.head?_append_of_ne_nil _ hword.isSolid.ne_nil] at hc
      exact hword.isSolid.first c hc
    · refine hword.isSolid.last.append ?_
      unfold EndsSolid
      rw [List.getLast?_append_of_ne_nil _ hnext.ne_nil]
      exact hnext.last

theorem IsSolid.spaces_eq (h : IsSolid s) : spaces s = s := by
  refine dropWhile_eq_self fun c hc => ?_
  by_contra hspace
  have hblank := isBlank_of_isSpace (Bool.eq_true_of_not_eq_false hspace)
  rw [h.first c hc] at hblank
  cases hblank

/-- The spaces before a token are passed over. -/
theorem Follows.skip (h : Follows (t :: ts) s) :
    someSpaces s = some (spaces s) ∧ Written (t :: ts) (spaces s) := by
  obtain ⟨gap, word, rest, hne, hgap, hword, hrest, rfl⟩ := h
  have hnext : Written (t :: ts) (word ++ rest) := ⟨word, rest, hword, hrest, rfl⟩
  have hspaces : spaces (gap ++ (word ++ rest)) = word ++ rest := by
    rw [spaces, List.dropWhile_append_of_pos hgap]
    exact hnext.isSolid.spaces_eq
  refine ⟨?_, by rwa [hspaces]⟩
  cases gap with
  | nil => exact absurd rfl hne
  | cons c gap =>
    have hc := hgap c List.mem_cons_self
    show (if isSpace c then some (spaces (gap ++ (word ++ rest))) else none) = _
    rw [if_pos hc, List.cons_append, spaces, spaces, List.dropWhile_cons_of_pos hc]

/-- A text has at least one character for every token. -/
theorem Follows.length_le (h : Follows ts s) : ts.length ≤ s.length := by
  induction ts generalizing s with
  | nil => exact Nat.zero_le _
  | cons t ts ih =>
    obtain ⟨gap, word, rest, -, -, hword, hrest, rfl⟩ := h
    have hpositive := List.length_pos_of_ne_nil hword.isSolid.ne_nil
    have hlength := ih hrest
    rw [List.length_cons, List.length_append, List.length_append]
    omega

theorem Written.length_le (h : Written ts s) : ts.length ≤ s.length := by
  cases ts with
  | nil => exact Nat.zero_le _
  | cons t ts =>
    obtain ⟨word, rest, hword, hrest, rfl⟩ := h
    have hpositive := List.length_pos_of_ne_nil hword.isSolid.ne_nil
    have hlength := hrest.length_le
    rw [List.length_cons, List.length_append]
    omega

/-! ### Readers of tokens -/

/-- Whether a reader passes over tokens that stand before others. -/
def Passes (read : Option (List Char)) (ts : List Token) : Prop :=
  ∃ rest, read = some rest ∧ Follows ts rest

/-- Whether a reader gives a value for tokens that stand before others. -/
def Reads {α : Type} (read : Option (α × List Char)) (a : α) (ts : List Token) : Prop :=
  ∃ rest, read = some (a, rest) ∧ Follows ts rest

/-- The token of a value. -/
def valueToken : Operand → Token
  | .integer i => .integer i
  | v => .text v.asText

theorem Written.passes_keyword {k : Keyword} (h : Written (.keyword k :: ts) s) :
    Passes (keyword k.text s) ts := by
  obtain ⟨word, rest, hword, hrest, rfl⟩ := h
  exact ⟨rest, keyword_append k.isWord hword hrest.endsWord, hrest⟩

theorem Written.keyword_of_ne {k : Keyword} (h : Written (.keyword k :: ts) s) {w : String}
    (hw : isWord w = true) (hne : k.text ≠ w) : keyword w s = none := by
  obtain ⟨word, rest, hword, hrest, rfl⟩ := h
  exact keyword_append_of_ne k.isWord hw hne hword hrest.endsWord

theorem Written.passes_symbol {c : Char} (h : Written (t :: ts) s)
    (ht : ∀ word, t.Spelled word → word = [c]) : Passes (symbol c s) ts := by
  obtain ⟨word, rest, hword, hrest, rfl⟩ := h
  obtain rfl := ht word hword
  refine ⟨rest, ?_, hrest⟩
  show (if c = c then some rest else none) = _
  rw [if_pos rfl]

theorem Written.reads_field {n : String} (h : Written (.name n :: ts) s) (hn : '"' ∉ n.toList) :
    Reads (field s) n ts := by
  obtain ⟨word, rest, hword, hrest, rfl⟩ := h
  refine ⟨rest, ?_, hrest⟩
  rcases hword with rfl | ⟨rfl, hword, -⟩
  · exact field_inQuotes hn rest
  · rw [field_append hword hrest.endsWord, String.ofList_toList]

theorem Written.symbol_of_name {n : String} {c : Char} (h : Written (.name n :: ts) s)
    (hc : startsName c = false) (hquote : c ≠ '"') : symbol c s = none := by
  obtain ⟨word, rest, hword, -, rfl⟩ := h
  rcases hword with rfl | ⟨-, hidentifier, -⟩
  · exact if_neg hquote.symm
  · exact symbol_append_eq_none hidentifier hc

theorem Written.reads_target {n : String} (h : Written (.target n :: ts) s)
    (hn : '"' ∉ n.toList) : Reads (target s) n ts := by
  obtain ⟨word, rest, hword, hrest, rfl⟩ := h
  refine ⟨rest, ?_, hrest⟩
  rcases hword with rfl | ⟨rfl, hword | rfl⟩
  · unfold target
    rw [quoted_inQuotes hn]
    rfl
  · unfold target
    rw [symbol_append_eq_none hword (by decide), quoted_append_eq_none hword,
      name_append hword hrest.endsWord, String.ofList_toList]
    rfl
  · rfl

theorem Written.reads_value {v : Operand} (h : Written (valueToken v :: ts) s) (hv : v.IsPlain) :
    Reads (value s) v ts := by
  obtain ⟨word, rest, hword, hrest, rfl⟩ := h
  refine ⟨rest, ?_, hrest⟩
  cases v with
  | integer i =>
    rw [show word = Json.intChars i.toInt from hword]
    exact value_intChars i hrest.endsWord
  | text t =>
    rw [show word = inQuotes t from hword]
    exact value_inQuotes hv rest
  | bool b => exact hv.elim
  | real x => exact hv.elim

theorem Follows.reads_comparison {op : Operator} {v : Operand}
    (h : Follows (.operator op :: valueToken v :: ts) s) (hop : op.isExistenceTest = false)
    (hv : v.IsPlain) : Reads (comparison s) (op, v) ts := by
  obtain ⟨word, rest, hword, hrest, hs⟩ := h.skip.2
  obtain ⟨rest', hread, hrest'⟩ := hrest.skip.2.reads_value hv
  refine ⟨rest', ?_, hrest'⟩
  unfold comparison
  rw [hs, show word = op.symbol.toList from hword, operator_symbol hop hrest.endsWord]
  show (value (spaces rest)).bind _ = _
  rw [hread]
  rfl

end Language

end GraphIndex
