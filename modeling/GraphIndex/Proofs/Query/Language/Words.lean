import GraphIndex.Proofs.Json.Numbers
import GraphIndex.Query.Language.Lexis

/-!
# Words of query texts

What the readers of keywords, names, quoted texts, operators and values make of a word that ends
where it should. A keyword is read only where the longest word in front is that keyword, letter
case aside (`keyword_eq_some_iff`): neither a longer word nor a name is cut. The decimal text of an
integer denotes it (`int64?_intChars`).
-/

namespace GraphIndex.Language

variable {c : Char} {word rest s : List Char}

/-! ### Characters -/

/-- What holds of the four spaces holds of every space. -/
theorem of_isSpace {p : Char → Bool} (hp : [' ', '\t', '\r', '\n'].all p = true)
    (h : isSpace c = true) : p c = true := by
  unfold isSpace at h
  simp only [Bool.or_eq_true, beq_iff_eq] at h
  rcases h with ((rfl | rfl) | rfl) | rfl <;> exact List.all_eq_true.mp hp _ (by decide)

theorem isBlank_of_isSpace (h : isSpace c = true) : Text.isBlank c = true :=
  of_isSpace (by decide) h

/-- What holds of all characters of ASCII holds of each. -/
theorem of_ascii {P : Char → Prop} (hP : ∀ n < 0x80, P (Char.ofNat n)) (hc : c.toNat < 0x80) :
    P c := by
  have hcode := hP _ hc
  rwa [Char.ofNat_toNat] at hcode

/-- What holds of the ten digits holds of every digit. -/
theorem of_isDigit {P : Char → Prop}
    (hP : ∀ n < 0x80, (Char.ofNat n).isDigit = true → P (Char.ofNat n)) (h : c.isDigit = true) :
    P c := by
  have hsmall : c.toNat < 0x80 := by
    unfold Char.isDigit at h
    rw [Bool.and_eq_true, decide_eq_true_eq, decide_eq_true_eq] at h
    exact lt_of_le_of_lt h.2 (by decide)
  exact of_ascii (P := fun c => c.isDigit = true → P c) hP hsmall h

/-- The codes of the blanks. -/
def blankCodes : List Nat :=
  List.range' 9 5 ++ [0x20, 0x85, 0xa0, 0x1680] ++ List.range' 0x2000 11
    ++ [0x2028, 0x2029, 0x202f, 0x205f, 0x3000]

theorem toNat_mem_blankCodes (h : Text.isBlank c = true) : c.toNat ∈ blankCodes := by
  unfold Text.isBlank at h
  simp only [Bool.or_eq_true, Bool.and_eq_true, decide_eq_true_eq, beq_iff_eq] at h
  simp only [blankCodes, List.mem_append, List.mem_range'_1, List.mem_cons, List.not_mem_nil,
    or_false]
  omega

theorem not_isBlank_of_isAlphanumeric (h : Text.isAlphanumeric c = true) :
    Text.isBlank c = false := by
  -- There are few blanks, so each of them is looked up in the table of letters.
  have hcodes : ∀ n ∈ blankCodes, Text.isAlphanumeric (Char.ofNat n) = false := by
    decide +kernel
  by_contra hblank
  have hcode := hcodes _ (toNat_mem_blankCodes (Bool.eq_true_of_not_eq_false hblank))
  rw [Char.ofNat_toNat, h] at hcode
  exact Bool.noConfusion hcode

theorem inName_of_startsName (h : startsName c = true) : inName c = true := by
  unfold inName
  rw [show (Text.isAlphanumeric c || c == '_') = true from h]
  rfl

theorem not_isBlank_of_inName (h : inName c = true) : Text.isBlank c = false := by
  unfold inName at h
  simp only [Bool.or_eq_true, beq_iff_eq] at h
  rcases h with ((h | rfl) | rfl) | rfl
  · exact not_isBlank_of_isAlphanumeric h
  · rfl
  · rfl
  · rfl

theorem isWordChar_of_isAlphanumeric (h : Text.isAlphanumeric c = true) : isWordChar c = true := by
  unfold isWordChar
  rw [h]
  rfl

theorem toNat_lt_of_isLower (h : c.isLower = true) : c.toNat < 0x80 := by
  unfold Char.isLower at h
  rw [Bool.and_eq_true, decide_eq_true_eq, decide_eq_true_eq] at h
  exact lt_of_le_of_lt h.2 (by decide)

theorem isAlphanumeric_of_isLower_toLower (h : c.toLower.isLower = true) :
    Text.isAlphanumeric c = true := by
  have hsmall : c.toNat < 0x80 := by
    unfold Char.toLower at h
    split at h
    · next hupper => exact lt_of_le_of_lt hupper.2 (by decide)
    · exact toNat_lt_of_isLower h
  exact of_ascii (P := fun c => c.toLower.isLower = true → Text.isAlphanumeric c = true)
    (by decide) hsmall h

theorem toLower_of_isLower (h : c.isLower = true) : c.toLower = c :=
  of_ascii (P := fun c => c.isLower = true → c.toLower = c) (by decide) (toNat_lt_of_isLower h) h

theorem isWordChar_of_startsName (h : startsName c = true) : isWordChar c = true := by
  unfold isWordChar
  rw [show (Text.isAlphanumeric c || c == '_') = true from h]
  rfl

/-! ### Where a word ends -/

theorem dropWhile_eq_self {p : Char → Bool} (hs : ∀ c ∈ s.head?, p c = false) :
    s.dropWhile p = s := by
  cases s with
  | nil => rfl
  | cons c s => exact List.dropWhile_cons_of_neg (by rw [hs c rfl]; decide)

/-- Characters of one kind are taken up to the first of another kind. -/
theorem span_append {p : Char → Bool} (hword : ∀ c ∈ word, p c = true)
    (hrest : ∀ c ∈ rest.head?, p c = false) :
    (word ++ rest).takeWhile p = word ∧ (word ++ rest).dropWhile p = rest := by
  rw [List.takeWhile_append_of_pos hword, List.dropWhile_append_of_pos hword,
    dropWhile_eq_self hrest]
  cases rest with
  | nil => exact ⟨List.append_nil word, rfl⟩
  | cons c rest =>
    rw [List.takeWhile_cons_of_neg (by rw [hrest c rfl]; decide), List.append_nil]
    exact ⟨rfl, rfl⟩

theorem continuesWord_eq_false_iff :
    continuesWord s = false ↔ ∀ c ∈ s.head?, isWordChar c = false := by
  cases s with
  | nil => simp [continuesWord]
  | cons c s => simp [continuesWord]

theorem wordPart_eq_some_iff {w : List Char} :
    wordPart w s = some rest ↔ ∃ u, u.map Char.toLower = w ∧ s = u ++ rest := by
  induction w generalizing s with
  | nil =>
    constructor
    · intro h
      exact ⟨[], rfl, Option.some.inj h⟩
    · rintro ⟨u, hu, rfl⟩
      rw [List.map_eq_nil_iff.mp hu]
      rfl
  | cons a w ih =>
    cases s with
    | nil =>
      constructor
      · rintro ⟨⟩
      · rintro ⟨u, hu, hs⟩
        obtain ⟨rfl, -⟩ := List.append_eq_nil_iff.mp hs.symm
        exact absurd hu (by rintro ⟨⟩)
    | cons c s =>
      rw [wordPart]
      constructor
      · intro h
        split at h
        · next hc =>
          obtain ⟨u, rfl, rfl⟩ := ih.mp h
          exact ⟨c :: u, by rw [List.map_cons, hc], rfl⟩
        · cases h
      · rintro ⟨u, hu, hs⟩
        cases u with
        | nil => exact absurd hu (by rintro ⟨⟩)
        | cons d u =>
          obtain ⟨rfl, rfl⟩ := List.cons.inj hs
          obtain ⟨hc, hw⟩ := List.cons.inj hu
          rw [if_pos hc]
          exact ih.mpr ⟨u, hw, rfl⟩

/-- Whether a text is a word of small letters. -/
def isWord (w : String) : Bool := !w.toList.isEmpty && w.toList.all Char.isLower

theorem keyword_eq_some_iff_wordPart {w : String} : keyword w s = some rest ↔
    wordPart w.toList s = some rest ∧ continuesWord rest = false := by
  unfold keyword
  rw [Option.bind_eq_bind, Option.bind_eq_some_iff]
  constructor
  · rintro ⟨r, hpart, hend⟩
    split at hend
    · cases hend
    · next hcontinues =>
      obtain rfl := Option.some.inj hend
      exact ⟨hpart, Bool.eq_false_of_not_eq_true hcontinues⟩
  · rintro ⟨hpart, hend⟩
    exact ⟨rest, hpart, by rw [hend]; rfl⟩

theorem isAlphanumeric_of_mem {w : String} (hw : isWord w = true)
    (hword : word.map Char.toLower = w.toList) : ∀ c ∈ word, Text.isAlphanumeric c = true := by
  intro c hc
  have hall := List.all_eq_true.mp ((Bool.and_eq_true_iff.mp hw).2)
  exact isAlphanumeric_of_isLower_toLower
    (hall c.toLower (hword ▸ List.mem_map_of_mem (f := Char.toLower) hc))

theorem isWordChar_of_mem {w : String} (hw : isWord w = true)
    (hword : word.map Char.toLower = w.toList) : ∀ c ∈ word, isWordChar c = true :=
  fun c hc => isWordChar_of_isAlphanumeric (isAlphanumeric_of_mem hw hword c hc)

/-- A keyword is read where the longest word in front is that keyword. -/
theorem keyword_eq_some_iff {w : String} (hw : isWord w = true) :
    keyword w s = some rest ↔
      (s.takeWhile isWordChar).map Char.toLower = w.toList ∧ s.dropWhile isWordChar = rest := by
  rw [keyword_eq_some_iff_wordPart, wordPart_eq_some_iff]
  constructor
  · rintro ⟨⟨u, hu, rfl⟩, hend⟩
    obtain ⟨htake, hdrop⟩ :=
      span_append (isWordChar_of_mem hw hu) (continuesWord_eq_false_iff.mp hend)
    rw [htake, hdrop]
    exact ⟨hu, rfl⟩
  · rintro ⟨hword, rfl⟩
    refine ⟨⟨_, hword, List.takeWhile_append_dropWhile.symm⟩, ?_⟩
    rw [continuesWord_eq_false_iff]
    intro c hc
    have hfirst := List.head?_dropWhile_not isWordChar s
    rw [Option.mem_def.mp hc] at hfirst
    exact hfirst

/-- Whether a word that stands before a text ends there. -/
def EndsWord (s : List Char) : Prop := ∀ c ∈ s.head?, isSpace c = true

theorem endsWord_nil : EndsWord [] := fun _ h => absurd h (by rintro ⟨⟩)

theorem EndsWord.not {p : Char → Bool} (hrest : EndsWord rest)
    (hp : [' ', '\t', '\r', '\n'].all (fun c => !p c) = true) :
    ∀ c ∈ rest.head?, p c = false := by
  intro c hc
  rw [← Bool.not_eq_true']
  exact of_isSpace hp (hrest c hc)

/-- A keyword that stands in front is read. -/
theorem keyword_append {w : String} (hw : isWord w = true)
    (hword : word.map Char.toLower = w.toList) (hrest : EndsWord rest) :
    keyword w (word ++ rest) = some rest := by
  obtain ⟨htake, hdrop⟩ := span_append (isWordChar_of_mem hw hword) (hrest.not (by decide))
  rw [keyword_eq_some_iff hw, htake, hdrop]
  exact ⟨hword, rfl⟩

/-- Another keyword than the one in front is not read. -/
theorem keyword_append_of_ne {v w : String} (hv : isWord v = true) (hw : isWord w = true)
    (hne : v ≠ w) (hword : word.map Char.toLower = v.toList) (hrest : EndsWord rest) :
    keyword w (word ++ rest) = none := by
  rw [Option.eq_none_iff_forall_ne_some]
  intro r hr
  obtain ⟨htake, -⟩ := span_append (isWordChar_of_mem hv hword) (hrest.not (by decide))
  have hlower := ((keyword_eq_some_iff hw).mp hr).1
  rw [htake, hword] at hlower
  exact hne (String.toList_inj.mp hlower)

/-- No keyword is read where no word begins. -/
theorem keyword_cons_eq_none {w : String} (hw : isWord w = true) (hc : isWordChar c = false) :
    keyword w (c :: s) = none := by
  rw [Option.eq_none_iff_forall_ne_some]
  intro r hr
  have hlower := ((keyword_eq_some_iff hw).mp hr).1
  rw [List.takeWhile_cons_of_neg (by rw [hc]; decide)] at hlower
  have hempty := (Bool.and_eq_true_iff.mp hw).1
  rw [← hlower] at hempty
  exact absurd hempty (by decide)

/-! ### Names and texts -/

/-- A text between double quotes. -/
def inQuotes (t : String) : List Char := '"' :: (t.toList ++ ['"'])

/-- A text in quotes ends at the next quote. -/
theorem quotedRest_append {quote : Char} {t : String} (ht : quote ∉ t.toList) (rest : List Char) :
    quotedRest quote (t.toList ++ quote :: rest) = some (t, rest) := by
  have hinside : ∀ c ∈ t.toList, (c != quote) = true := by
    intro c hc
    rw [bne_iff_ne]
    rintro rfl
    exact ht hc
  have hend : ∀ c ∈ (quote :: rest).head?, (c != quote) = false := by
    intro c hc
    rw [← Option.some.inj hc]
    exact bne_self_eq_false quote
  obtain ⟨htake, hdrop⟩ := span_append hinside hend
  unfold quotedRest
  rw [hdrop, htake, String.ofList_toList]

theorem quoted_inQuotes {t : String} (ht : '"' ∉ t.toList) (rest : List Char) :
    quoted (inQuotes t ++ rest) = some (t, rest) := by
  unfold inQuotes
  rw [List.cons_append, List.append_assoc, List.singleton_append]
  exact quotedRest_append ht rest

theorem quoted_cons_eq_none (hdouble : c ≠ '"') (hsingle : c ≠ '\x27') :
    quoted (c :: s) = none := by
  unfold quoted
  split
  · next heq => exact absurd (List.cons.inj heq).1 hdouble
  · next heq => exact absurd (List.cons.inj heq).1 hsingle
  · rfl

/-- Whether a text can stand bare as a name. -/
def isIdentifier : List Char → Bool
  | [] => false
  | c :: s => startsName c && s.all inName

theorem isIdentifier_cons : isIdentifier (c :: s) = true ↔
    startsName c = true ∧ ∀ d ∈ s, inName d = true := by
  rw [isIdentifier, Bool.and_eq_true, List.all_eq_true]

/-- A name is a word, or a word, a minus sign and more. -/
theorem isIdentifier_cases (hword : isIdentifier word = true) :
    (∀ c ∈ word, isWordChar c = true) ∨
      ∃ u v, word = u ++ '-' :: v ∧ ∀ c ∈ u, isWordChar c = true := by
  have hinside : ∀ c ∈ word, inName c = true := by
    cases word with
    | nil => cases hword
    | cons c word =>
      obtain ⟨hfirst, hinside⟩ := isIdentifier_cons.mp hword
      exact List.forall_mem_cons.mpr ⟨inName_of_startsName hfirst, hinside⟩
  have htake : ∀ c ∈ word.takeWhile isWordChar, isWordChar c = true :=
    List.all_eq_true.mp List.all_takeWhile
  -- The first character that is not of a word can only be a minus sign.
  have hsplit := List.takeWhile_append_dropWhile (p := isWordChar) (l := word)
  cases hdrop : word.dropWhile isWordChar with
  | nil =>
    rw [hdrop, List.append_nil] at hsplit
    exact .inl (hsplit ▸ htake)
  | cons d v =>
    have hd := List.head?_dropWhile_not isWordChar word
    rw [hdrop] at hd hsplit
    have hname : inName d = true :=
      hinside d (hsplit ▸ List.mem_append_right _ List.mem_cons_self)
    have hminus : d = '-' := by
      unfold inName at hname
      rw [show (Text.isAlphanumeric d || d == '_' || d == '.') = false from hd] at hname
      exact beq_iff_eq.mp hname
    exact .inr ⟨_, v, by rw [← hminus, hsplit], htake⟩

theorem startsName_of_isAlphanumeric (h : Text.isAlphanumeric c = true) : startsName c = true := by
  unfold startsName
  rw [h]
  rfl

/-- A keyword could be the name of a field. -/
theorem isIdentifier_of_isWord {w : String} (hw : isWord w = true)
    (hword : word.map Char.toLower = w.toList) : isIdentifier word = true := by
  have hstarts : ∀ c ∈ word, startsName c = true := fun c hc =>
    startsName_of_isAlphanumeric (isAlphanumeric_of_mem hw hword c hc)
  cases word with
  | nil =>
    have hnonempty := (Bool.and_eq_true_iff.mp hw).1
    rw [← hword] at hnonempty
    exact absurd hnonempty (by decide)
  | cons c word =>
    exact isIdentifier_cons.mpr ⟨hstarts c List.mem_cons_self,
      fun d hd => inName_of_startsName (hstarts d (List.mem_cons_of_mem c hd))⟩

theorem field_inQuotes {t : String} (ht : '"' ∉ t.toList) (rest : List Char) :
    field (inQuotes t ++ rest) = some (t, rest) := by
  unfold field
  rw [quoted_inQuotes ht]
  rfl

theorem name_append (hword : isIdentifier word = true) (hrest : EndsWord rest) :
    name (word ++ rest) = some (.ofList word, rest) := by
  cases word with
  | nil => cases hword
  | cons c word =>
    obtain ⟨hfirst, hinside⟩ := isIdentifier_cons.mp hword
    obtain ⟨htake, hdrop⟩ := span_append hinside (hrest.not (by decide))
    rw [List.cons_append, name, if_pos hfirst, htake, hdrop]

theorem startsName.ne {d : Char} (hc : startsName c = true) (hd : startsName d = false) :
    c ≠ d := by
  rintro rfl
  exact Bool.false_ne_true (hd.symm.trans hc)

theorem quoted_append_eq_none (hword : isIdentifier word = true) :
    quoted (word ++ rest) = none := by
  cases word with
  | nil => cases hword
  | cons c word =>
    have hfirst := (isIdentifier_cons.mp hword).1
    exact quoted_cons_eq_none (startsName.ne hfirst (by decide)) (startsName.ne hfirst (by decide))

theorem symbol_append_eq_none (hword : isIdentifier word = true) (hc : startsName c = false) :
    symbol c (word ++ rest) = none := by
  cases word with
  | nil => cases hword
  | cons d word => exact if_neg (startsName.ne (isIdentifier_cons.mp hword).1 hc)

theorem field_append (hword : isIdentifier word = true) (hrest : EndsWord rest) :
    field (word ++ rest) = some (.ofList word, rest) := by
  unfold field
  rw [quoted_append_eq_none hword, name_append hword hrest]
  rfl

/-! ### Operators and values -/

theorem operator_symbol {op : Operator} (hop : op.isExistenceTest = false)
    (hrest : EndsWord rest) : operator (op.symbol.toList ++ rest) = some (op, rest) := by
  -- No longer operator begins with this one: what comes next is a space.
  have hequal : ∀ r, rest ≠ '=' :: r := by
    rintro r rfl
    exact absurd (hrest '=' rfl) (by decide)
  have hgreater : ∀ r, rest ≠ '>' :: r := by
    rintro r rfl
    exact absurd (hrest '>' rfl) (by decide)
  cases op with
  | present => cases hop
  | missing => cases hop
  | contains => rfl
  | compare comparison =>
    cases comparison with
    | notEqual | atLeast | atMost => rfl
    | equal =>
      show operator ('=' :: rest) = _
      rw [operator]
      exact hequal
    | greater =>
      show operator ('>' :: rest) = _
      rw [operator]
      exact hequal
    | less =>
      show operator ('<' :: rest) = _
      rw [operator]
      · exact hequal
      · exact hgreater

theorem spanSign_of_digits {ds : List Char} (hds : ∀ c ∈ ds, c.isDigit = true) :
    Numeral.spanSign ds = (false, ds) := by
  unfold Numeral.spanSign
  split
  · exact absurd (hds '-' List.mem_cons_self) (by decide)
  · exact absurd (hds '+' List.mem_cons_self) (by decide)
  · rfl

/-- The decimal text of an integer denotes it. -/
theorem int64?_intChars (i : Int64) : Numeral.int64? (Json.intChars i.toInt) = some i := by
  have hdigits := Json.isDigit_toDigits i.toInt.natAbs
  have hproper : (!(Nat.toDigits 10 i.toInt.natAbs).isEmpty
      && (Nat.toDigits 10 i.toInt.natAbs).all Char.isDigit) = true := by
    rw [Bool.and_eq_true, Bool.not_eq_true', List.isEmpty_eq_false_iff, List.all_eq_true]
    exact ⟨Nat.toDigits_ne_nil, hdigits⟩
  have hvalue : Numeral.value (Nat.toDigits 10 i.toInt.natAbs) = i.toInt.natAbs :=
    Nat.ofDigitChars_ten_toDigits
  have hsign : Numeral.spanSign (Json.intChars i.toInt)
      = (decide (i.toInt < 0), Nat.toDigits 10 i.toInt.natAbs) := by
    unfold Json.intChars
    by_cases hneg : i.toInt < 0
    · rw [if_pos hneg, decide_eq_true hneg]
      rfl
    · rw [if_neg hneg, decide_eq_false hneg, spanSign_of_digits hdigits]
  -- Sign and digits put together again give the integer, which fits.
  have hsigned : Numeral.signed (decide (i.toInt < 0)) i.toInt.natAbs = i.toInt := by
    unfold Numeral.signed
    by_cases hneg : i.toInt < 0
    · rw [decide_eq_true hneg, if_pos rfl]
      omega
    · rw [decide_eq_false hneg, if_neg (by decide)]
      omega
  unfold Numeral.int64?
  rw [hsign]
  dsimp only
  rw [hproper, if_pos rfl, hvalue, hsigned, if_pos (fitsInt64_toInt i), Int64.ofInt_toInt]

theorem isDigit_intChars {i : Int} (hi : 0 ≤ i) : ∀ c ∈ Json.intChars i, c.isDigit = true := by
  unfold Json.intChars
  rw [if_neg (by omega)]
  exact Json.isDigit_toDigits _

/-- The decimal text of an integer consists of digits and a minus sign. -/
theorem of_mem_intChars {P : Char → Prop} (hminus : P '-')
    (hdigit : ∀ n < 0x80, (Char.ofNat n).isDigit = true → P (Char.ofNat n)) {i : Int} :
    ∀ c ∈ Json.intChars i, P c := by
  have hdigits : ∀ c ∈ Nat.toDigits 10 i.natAbs, P c := fun c hc =>
    of_isDigit hdigit (Json.isDigit_toDigits _ c hc)
  unfold Json.intChars
  split
  · rintro c (_ | ⟨_, hc⟩)
    · exact hminus
    · exact hdigits c hc
  · exact hdigits

theorem intChars_ne_nil (i : Int) : Json.intChars i ≠ [] := by
  unfold Json.intChars
  split
  · exact List.cons_ne_nil _ _
  · exact Nat.toDigits_ne_nil

theorem count_intChars {i : Int64} (hi : 0 ≤ i) (hrest : EndsWord rest) :
    count (Json.intChars i.toInt ++ rest) = some (i, rest) := by
  have hnonneg : 0 ≤ i.toInt := by rwa [Int64.le_iff_toInt_le, Int64.toInt_zero] at hi
  obtain ⟨htake, hdrop⟩ := span_append (isDigit_intChars hnonneg) (hrest.not (by decide))
  unfold count Numeral.spanDigits
  rw [htake, hdrop]
  dsimp only
  rw [int64?_intChars]
  rfl

theorem value_inQuotes {t : String} (ht : '"' ∉ t.toList) (rest : List Char) :
    value (inQuotes t ++ rest) = some (.text t, rest) := by
  unfold value
  rw [quoted_inQuotes ht]
  rfl

theorem inValue_intChars (i : Int) : ∀ c ∈ Json.intChars i, inValue c = true :=
  of_mem_intChars (by decide) (by decide)

theorem value_intChars (i : Int64) (hrest : EndsWord rest) :
    value (Json.intChars i.toInt ++ rest) = some (.integer i, rest) := by
  have hquotes : ∀ c ∈ Json.intChars i.toInt, c ≠ '"' ∧ c ≠ '\x27' :=
    of_mem_intChars (by decide) (by decide)
  obtain ⟨htake, hdrop⟩ := span_append (inValue_intChars i.toInt) (hrest.not (by decide))
  have hquoted : quoted (Json.intChars i.toInt ++ rest) = none := by
    cases h : Json.intChars i.toInt with
    | nil => exact absurd h (intChars_ne_nil _)
    | cons c r =>
      obtain ⟨hdouble, hsingle⟩ := hquotes c (h ▸ List.mem_cons_self)
      exact quoted_cons_eq_none hdouble hsingle
  have hbare : bareValue (Json.intChars i.toInt ++ rest) = some (.integer i, rest) := by
    unfold bareValue
    rw [htake, hdrop]
    split
    · next heq => exact absurd heq (intChars_ne_nil _)
    · rw [classify, int64?_intChars]
  unfold value
  rw [hquoted, hbare]
  rfl

end GraphIndex.Language
