import GraphIndex.Proofs.Json.Doubles

/-!
# JSON values read back from their texts

`Json.scanValue_chars`: a value that is written without blanks is read from the front of a text,
whatever follows it, as long as the reader goes deep enough. It is read back as it was (`ReadsBack`)
but for its doubles (`Json.reread`): JSON has no infinity and no NaN, so null is read for them, and
a finite double is read as what its text denotes to the reader. The bound on the steps of the reader
is never met: a value takes two steps at most for each character of its text.
-/

namespace GraphIndex

namespace Json

/-! ### Strings -/

/-- What is read of a string, after another character. -/
def after (c : Char) (read : Option (List Char × List Char)) : Option (List Char × List Char) :=
  read.map fun (cs, r) => (c :: cs, r)

theorem hexValue?_hexDigit : ∀ n < 16, hexValue? (hexDigit n) = some n := by decide

/-- Four digits that denote no surrogate stand for a character of their own. -/
theorem scanString_hex {a b c d : Char} {n : Nat} (h : hex4? a b c d = some n)
    (hhigh : isHighSurrogate n = false) (hlow : isLowSurrogate n = false) (s : List Char) :
    scanString ('\\' :: 'u' :: a :: b :: c :: d :: s) = after (Char.ofNat n) (scanString s) := by
  by_cases hpair : ∃ a' b' c' d' r, s = '\\' :: 'u' :: a' :: b' :: c' :: d' :: r
  · obtain ⟨a', b', c', d', r, rfl⟩ := hpair
    rw [scanString, h, Option.bind_eq_bind, Option.bind_some, if_neg (by rw [hhigh]; decide),
      if_neg (by rw [hlow]; decide)]
    cases scanString ('\\' :: 'u' :: a' :: b' :: c' :: d' :: r) <;> rfl
  · rw [scanString, h, Option.bind_eq_bind, Option.bind_some, hhigh, hlow]
    · cases scanString s <;> rfl
    · exact fun a' b' c' d' r hs => hpair ⟨a', b', c', d', r, hs⟩

theorem scanString_short {e c : Char} (h : shortEscape? e = some c) (s : List Char) :
    scanString ('\\' :: e :: s) = after c (scanString s) := by
  have he : e ≠ 'u' := by
    rintro rfl
    exact absurd h (by rintro ⟨⟩)
  rw [scanString, h, Option.bind_eq_bind, Option.bind_some]
  · cases scanString s <;> rfl
  · exact fun _ _ _ _ _ _ _ _ _ hu => absurd hu he
  · exact fun _ _ _ _ _ hu => absurd hu he

theorem scanString_plain {c : Char} (hquote : c ≠ '"') (hescape : c ≠ '\\')
    (hcontrol : ¬ c.toNat < 0x20) (s : List Char) :
    scanString (c :: s) = after c (scanString s) := by
  rw [scanString]
  · rw [if_neg (not_or.mpr ⟨hcontrol, hescape⟩)]
    rfl
  · exact hquote
  · exact fun _ _ _ _ _ _ _ _ _ hc => absurd hc hescape
  · exact fun _ _ _ _ _ hc => absurd hc hescape
  · exact fun _ _ hc => absurd hc hescape

theorem isSurrogate_of_lt {n : Nat} (h : n < 0xd800) :
    isHighSurrogate n = false ∧ isLowSurrogate n = false := by
  unfold isHighSurrogate isLowSurrogate
  constructor
  · rw [decide_eq_false (by omega), Bool.false_and]
  · rw [decide_eq_false (by omega), Bool.false_and]

/-- A character reads back from its form inside of a string. -/
theorem scanString_escapeChar (c : Char) (s : List Char) :
    scanString (escapeChar c ++ s) = after c (scanString s) := by
  have hof : ∀ n, c.toNat = n → c = Char.ofNat n := fun n hn => by rw [← hn, Char.ofNat_toNat]
  -- Every way of writing a character has a reader of its own.
  unfold escapeChar
  by_cases hquote : c = '"'
  · rw [if_pos hquote, hquote]
    exact scanString_short rfl s
  rw [if_neg hquote]
  by_cases hescape : c = '\\'
  · rw [if_pos hescape, hescape]
    exact scanString_short rfl s
  rw [if_neg hescape]
  by_cases hcontrol : c.toNat < 0x20
  · rw [if_pos hcontrol]
    split_ifs with h h h h h
    · rw [hof _ h]
      exact scanString_short rfl s
    · rw [hof _ h]
      exact scanString_short rfl s
    · rw [hof _ h]
      exact scanString_short rfl s
    · rw [hof _ h]
      exact scanString_short rfl s
    · rw [hof _ h]
      exact scanString_short rfl s
    · have hhex : hex4? '0' '0' (hexDigit (c.toNat / 16)) (hexDigit (c.toNat % 16))
          = some c.toNat := by
        unfold hex4?
        rw [hexValue?_hexDigit _ (by omega), hexValue?_hexDigit _ (by omega)]
        show some (((0 * 16 + 0) * 16 + c.toNat / 16) * 16 + c.toNat % 16) = _
        congr 1
        omega
      obtain ⟨hhigh, hlow⟩ := isSurrogate_of_lt (n := c.toNat) (by omega)
      have hread := scanString_hex hhex hhigh hlow s
      rwa [Char.ofNat_toNat] at hread
  · rw [if_neg hcontrol]
    exact scanString_plain hquote hescape hcontrol s

/-- A string reads back from its text. -/
theorem scanString_quoted (s rest : List Char) :
    scanString (s.flatMap escapeChar ++ '"' :: rest) = some (s, rest) := by
  induction s with
  | nil => rw [List.flatMap_nil, List.nil_append, scanString]
  | cons c s ih =>
    rw [List.flatMap_cons, List.append_assoc, scanString_escapeChar, ih]
    rfl

theorem quote_append (s : String) (rest : List Char) :
    quote s ++ rest = '"' :: (s.toList.flatMap escapeChar ++ '"' :: rest) := by
  rw [quote, List.cons_append, List.append_assoc, List.singleton_append]

/-! ### Values -/

end Json

/-- Whether a number reads back from its text. An integer does if it fits sixty-four bits. -/
def JsonNumber.ReadsBack : JsonNumber → Prop
  | .integer i => fitsInt64 i = true
  | .real x => x.isFinite = true ∧ Json.scanNumber x.scientific.toList = some (.real x, [])

namespace Json

mutual

/-- Whether every number of a value reads back. -/
def ReadsBack : Json → Prop
  | .number n => n.ReadsBack
  | .array items => ItemsReadBack items
  | .object members => MembersReadBack members
  | .unreadable => False
  | _ => True

def ItemsReadBack : List Json → Prop
  | [] => True
  | j :: rest => j.ReadsBack ∧ ItemsReadBack rest

def MembersReadBack : List (String × Json) → Prop
  | [] => True
  | (_, j) :: rest => j.ReadsBack ∧ MembersReadBack rest

end

end Json

/-! #### What is read -/

/-- The double that the text of a finite double denotes. -/
def Binary64.reread (x : Binary64) : Binary64 :=
  match Json.scanNumber x.scientific.toList with
  | some (.real y, []) => y
  | _ => x

theorem Binary64.scanNumber_scientific {x : Binary64} (hx : x.isFinite = true) :
    Json.scanNumber x.scientific.toList = some (.real x.reread, []) := by
  obtain ⟨y, hy⟩ := Json.exists_scanNumber_scientific hx
  unfold Binary64.reread
  rw [hy]

/-- What is read for a number: null for a double that is not finite. -/
def JsonNumber.reread : JsonNumber → Json
  | .integer i => .number (.integer i)
  | .real x => if x.isFinite then .number (.real x.reread) else .null

/-- Whether a number is read as one if it is finite: an integer has to fit sixty-four bits. -/
def JsonNumber.Fits : JsonNumber → Prop
  | .integer i => fitsInt64 i = true
  | .real _ => True

namespace Json

mutual

/-- What is read for a value. -/
def reread : Json → Json
  | .number n => n.reread
  | .array items => .array (itemsReread items)
  | .object members => .object (membersReread members)
  | j => j

def itemsReread : List Json → List Json
  | [] => []
  | j :: rest => j.reread :: itemsReread rest

def membersReread : List (String × Json) → List (String × Json)
  | [] => []
  | (k, j) :: rest => (k, j.reread) :: membersReread rest

end

mutual

/-- Whether every integer of a value fits sixty-four bits, and the value is whole. -/
def Fits : Json → Prop
  | .number n => n.Fits
  | .array items => ItemsFit items
  | .object members => MembersFit members
  | .unreadable => False
  | _ => True

def ItemsFit : List Json → Prop
  | [] => True
  | j :: rest => j.Fits ∧ ItemsFit rest

def MembersFit : List (String × Json) → Prop
  | [] => True
  | (_, j) :: rest => j.Fits ∧ MembersFit rest

end

theorem reread_of_readsBack {x : Binary64} (h : (JsonNumber.real x).ReadsBack) : x.reread = x := by
  have hread := (Binary64.scanNumber_scientific h.1).symm.trans h.2
  exact JsonNumber.real.inj (Prod.mk.inj (Option.some.inj hread)).1

theorem fits_and_reread_of_number {n : JsonNumber} (h : n.ReadsBack) :
    n.Fits ∧ n.reread = .number n := by
  cases n with
  | integer i => exact ⟨h, rfl⟩
  | real x => exact ⟨trivial, by rw [JsonNumber.reread, if_pos h.1, reread_of_readsBack h]⟩

mutual

/-- What reads back is read as it is. -/
theorem ReadsBack.fits_and_reread : ∀ {j : Json}, j.ReadsBack → j.Fits ∧ j.reread = j
  | .number _, h => fits_and_reread_of_number h
  | .array _, h => (ItemsReadBack.fit_and_reread h).imp_right (congrArg array)
  | .object _, h => (MembersReadBack.fit_and_reread h).imp_right (congrArg object)
  | .unreadable, h => absurd h (by rintro ⟨⟩)
  | .null, _ | .bool _, _ | .text _, _ => ⟨trivial, rfl⟩

theorem ItemsReadBack.fit_and_reread : ∀ {items : List Json}, ItemsReadBack items →
    ItemsFit items ∧ itemsReread items = items
  | [], _ => ⟨trivial, rfl⟩
  | _ :: _, h => by
    obtain ⟨hfits, hread⟩ := h.1.fits_and_reread
    obtain ⟨hfit, hreads⟩ := ItemsReadBack.fit_and_reread h.2
    exact ⟨⟨hfits, hfit⟩, by rw [itemsReread, hread, hreads]⟩

theorem MembersReadBack.fit_and_reread : ∀ {members : List (String × Json)},
    MembersReadBack members → MembersFit members ∧ membersReread members = members
  | [], _ => ⟨trivial, rfl⟩
  | (_, _) :: _, h => by
    obtain ⟨hfits, hread⟩ := ReadsBack.fits_and_reread h.1
    obtain ⟨hfit, hreads⟩ := MembersReadBack.fit_and_reread h.2
    exact ⟨⟨hfits, hfit⟩, by rw [membersReread, hread, hreads]⟩

end

mutual

/-- What is read for a value can be read again. -/
theorem Fits.reread : ∀ {j : Json}, j.Fits → j.reread.Fits
  | .number (.integer _), h => h
  | .number (.real x), _ => by
    show (if x.isFinite then Json.number (.real x.reread) else .null).Fits
    split <;> trivial
  | .array _, h => ItemsFit.reread h
  | .object _, h => MembersFit.reread h
  | .unreadable, h => absurd h (by rintro ⟨⟩)
  | .null, _ | .bool _, _ | .text _, _ => trivial

theorem ItemsFit.reread : ∀ {items : List Json}, ItemsFit items → ItemsFit (itemsReread items)
  | [], _ => trivial
  | _ :: _, h => ⟨h.1.reread, ItemsFit.reread h.2⟩

theorem MembersFit.reread : ∀ {members : List (String × Json)}, MembersFit members →
    MembersFit (membersReread members)
  | [], _ => trivial
  | (_, _) :: _, h => ⟨Fits.reread h.1, MembersFit.reread h.2⟩

end

mutual

theorem Fits.isReadable : ∀ {j : Json}, j.Fits → j.isReadable = true
  | .array _, h => ItemsFit.itemsReadable h
  | .object _, h => MembersFit.membersReadable h
  | .unreadable, h => absurd h (by rintro ⟨⟩)
  | .null, _ | .bool _, _ | .number _, _ | .text _, _ => rfl

theorem ItemsFit.itemsReadable : ∀ {items : List Json}, ItemsFit items →
    Json.itemsReadable items = true
  | [], _ => rfl
  | _ :: _, h => Bool.and_eq_true_iff.mpr ⟨h.1.isReadable, ItemsFit.itemsReadable h.2⟩

theorem MembersFit.membersReadable : ∀ {members : List (String × Json)},
    MembersFit members → Json.membersReadable members = true
  | [], _ => rfl
  | (_, _) :: _, h =>
    Bool.and_eq_true_iff.mpr ⟨Fits.isReadable h.1, MembersFit.membersReadable h.2⟩

end

mutual

/-- How deep lists and objects are nested in a value. -/
def nesting : Json → Nat
  | .array items => itemsNesting items + 1
  | .object members => membersNesting members + 1
  | _ => 0

def itemsNesting : List Json → Nat
  | [] => 0
  | j :: rest => max j.nesting (itemsNesting rest)

def membersNesting : List (String × Json) → Nat
  | [] => 0
  | (_, j) :: rest => max j.nesting (membersNesting rest)

end

theorem skipSpace_cons {c : Char} (h : isSpace c = false) (s : List Char) :
    skipSpace (c :: s) = c :: s := List.dropWhile_cons_of_neg (by rw [h]; decide)

/-- A number begins with a digit or a minus sign. -/
theorem exists_cons_of_scanNumber {s r : List Char} {n : JsonNumber}
    (h : scanNumber s = some (n, r)) : ∃ c s', s = c :: s' ∧ (c.isDigit = true ∨ c = '-') := by
  cases s with
  | nil => exact absurd h (by rintro ⟨⟩)
  | cons c s =>
    refine ⟨c, s, rfl, ?_⟩
    by_contra hne
    rw [not_or] at hne
    have hnone : scanUnsigned false (c :: s) = none := by
      unfold scanUnsigned Numeral.spanDigits
      rw [List.takeWhile_cons_of_neg hne.1]
    have hminus : ∀ d ∈ (c :: s).head?, d ≠ '-' := fun d hd => Option.some.inj hd ▸ hne.2
    rw [scanNumber_of_ne hminus, hnone] at h
    exact absurd h (by rintro ⟨⟩)

theorem scanValue_of_scanNumber {s r : List Char} {n : JsonNumber}
    (h : scanNumber s = some (n, r)) (fuel depth : Nat) :
    scanValue (fuel + 1) depth s = (.number n, some r) := by
  obtain ⟨c, s, rfl, hc⟩ := exists_cons_of_scanNumber h
  have hne : ∀ d : Char, d.isDigit = false → d ≠ '-' → c ≠ d := by
    rintro d hdigit hminus rfl
    rcases hc with hc | hc
    · exact Bool.false_ne_true (hdigit.symm.trans hc)
    · exact hminus hc
  have hspace : isSpace c = false := by
    unfold isSpace
    simp only [Bool.or_eq_false_iff, beq_eq_false_iff_ne]
    exact ⟨⟨⟨hne _ rfl (by decide), hne _ rfl (by decide)⟩, hne _ rfl (by decide)⟩,
      hne _ rfl (by decide)⟩
  rw [scanValue, skipSpace_cons hspace]
  -- Every other value begins with a character that no number begins with.
  split
  case h_7 => rw [h]
  all_goals
    next heq => exact absurd (List.cons.inj heq).1 (hne _ rfl (by decide))

theorem scanValue_numberChars {n : JsonNumber} (hn : n.Fits) {rest : List Char}
    (hrest : EndsNumber rest) (fuel depth : Nat) :
    scanValue (fuel + 1) depth (numberChars n ++ rest) = (n.reread, some rest) := by
  cases n with
  | integer i => exact scanValue_of_scanNumber (scanNumber_intChars hrest hn) fuel depth
  | real x =>
    rw [numberChars, JsonNumber.reread]
    split_ifs with hx
    · apply scanValue_of_scanNumber
      rw [scanNumber_append hrest, Binary64.scanNumber_scientific hx]
      rfl
    · rw [nullChars, scanValue]
      rfl

/-- The text of a value begins with its own first character, not with a blank or a bracket that
closes a list. -/
theorem exists_cons_chars {j : Json} (h : j.Fits) :
    ∃ c s, j.chars = c :: s ∧ isSpace c = false ∧ c ≠ ']' := by
  -- A number begins with a digit or a minus sign, every other value with a mark of its own.
  have hnumber : ∀ {n : JsonNumber} {s : List Char}, scanNumber s = some (n, []) →
      ∃ c s', s = c :: s' ∧ isSpace c = false ∧ c ≠ ']' := by
    intro n s hread
    obtain ⟨c, s', rfl, hc⟩ := exists_cons_of_scanNumber hread
    refine ⟨c, s', rfl, ?_, ?_⟩
    · unfold isSpace
      simp only [Bool.or_eq_false_iff, beq_eq_false_iff_ne]
      refine ⟨⟨⟨?_, ?_⟩, ?_⟩, ?_⟩ <;> rintro rfl <;> exact absurd hc (by decide)
    · rintro rfl
      exact absurd hc (by decide)
  cases j with
  | null => exact ⟨_, _, rfl, rfl, by decide⟩
  | bool b => cases b <;> exact ⟨_, _, rfl, rfl, by decide⟩
  | text s => exact ⟨_, _, rfl, rfl, by decide⟩
  | array items => exact ⟨_, _, rfl, rfl, by decide⟩
  | object members => exact ⟨_, _, rfl, rfl, by decide⟩
  | unreadable => exact absurd h (by rintro ⟨⟩)
  | number n =>
    cases n with
    | integer i =>
      have hread := scanNumber_intChars endsNumber_nil h
      rw [List.append_nil] at hread
      exact hnumber hread
    | real x =>
      rw [chars, numberChars]
      split_ifs with hx
      · exact hnumber (Binary64.scanNumber_scientific hx)
      · exact ⟨_, _, rfl, rfl, by decide⟩

theorem length_chars_pos {j : Json} (h : j.Fits) : 0 < j.chars.length := by
  obtain ⟨c, s, hchars, -⟩ := exists_cons_chars h
  rw [hchars]
  exact Nat.succ_pos _

/-! #### Stages of the reader -/

/-- Reads what follows the bracket that opens a list. -/
def scanList (fuel depth : Nat) (s : List Char) : List Json × Option (List Char) :=
  match skipSpace s with
  | ']' :: r => ([], some r)
  | r => scanItems fuel depth r

/-- Reads what follows the brace that opens an object. -/
def scanObject (fuel depth : Nat) (s : List Char) : List (String × Json) × Option (List Char) :=
  match skipSpace s with
  | '\x7d' :: r => ([], some r)
  | r => scanMembers fuel depth r

/-- Reads what follows an item of a list. -/
def scanAfterItem (fuel depth : Nat) (j : Json) (s : List Char) :
    List Json × Option (List Char) :=
  match skipSpace s with
  | ']' :: r => ([j], some r)
  | ',' :: r => (j :: (scanItems fuel depth r).1, (scanItems fuel depth r).2)
  | _ => ([j, .unreadable], none)

/-- Reads what follows a member of an object. -/
def scanAfterMember (fuel depth : Nat) (m : String × Json) (s : List Char) :
    List (String × Json) × Option (List Char) :=
  match skipSpace s with
  | '\x7d' :: r => ([m], some r)
  | ',' :: r => (m :: (scanMembers fuel depth r).1, (scanMembers fuel depth r).2)
  | _ => ([m, ("", .unreadable)], none)

/-- Reads what follows the colon behind a key. -/
def scanMember (fuel depth : Nat) (k : String) (s : List Char) :
    List (String × Json) × Option (List Char) :=
  match scanValue fuel depth s with
  | (j, none) => ([(k, j)], none)
  | (j, some r) => scanAfterMember fuel depth (k, j) r

/-- Reads what follows a key, if there is one. -/
def scanAfterKey (fuel depth : Nat) :
    Option (List Char × List Char) → List (String × Json) × Option (List Char)
  | none => ([("", .unreadable)], none)
  | some (cs, s) =>
    match skipSpace s with
    | ':' :: r => scanMember fuel depth (.ofList cs) r
    | _ => ([(.ofList cs, .unreadable)], none)

/-- The value that a string is, if there is one. -/
def textValue : Option (List Char × List Char) → Json × Option (List Char)
  | some (cs, r) => (.text (.ofList cs), some r)
  | none => (.unreadable, none)

variable {fuel depth : Nat} {s r : List Char}

theorem scanValue_bracket (fuel depth : Nat) (s : List Char) :
    scanValue (fuel + 1) (depth + 1) ('[' :: s)
      = (.array (scanList fuel depth s).1, (scanList fuel depth s).2) := by
  rw [scanValue, skipSpace_cons rfl]
  rfl

theorem scanValue_brace (fuel depth : Nat) (s : List Char) :
    scanValue (fuel + 1) (depth + 1) ('\x7b' :: s)
      = (.object (scanObject fuel depth s).1, (scanObject fuel depth s).2) := by
  rw [scanValue, skipSpace_cons rfl]
  rfl

theorem scanValue_quote (fuel depth : Nat) (s : String) (r : List Char) :
    scanValue (fuel + 1) depth (quote s ++ r) = (.text s, some r) := by
  rw [quote_append, scanValue, skipSpace_cons rfl]
  show textValue (scanString (s.toList.flatMap escapeChar ++ '"' :: r)) = _
  rw [scanString_quoted]
  exact congrArg (fun t => (Json.text t, some r)) String.ofList_toList

theorem scanList_of_ne (hs : skipSpace s = s) (hclose : ∀ r, s ≠ ']' :: r) :
    scanList fuel depth s = scanItems fuel depth s := by
  unfold scanList
  rw [hs]
  split
  · next r => exact absurd rfl (hclose r)
  · rfl

theorem scanItems_of_scanValue {j : Json} (h : scanValue fuel depth s = (j, some r)) :
    scanItems (fuel + 1) depth s = scanAfterItem fuel depth j r := by
  rw [scanItems, h]
  rfl

theorem scanMembers_quote (fuel depth : Nat) (k : String) (s : List Char) :
    scanMembers (fuel + 1) depth (quote k ++ ':' :: s) = scanMember fuel depth k s := by
  rw [quote_append, scanMembers, skipSpace_cons rfl]
  show scanAfterKey fuel depth (scanString (k.toList.flatMap escapeChar ++ '"' :: ':' :: s)) = _
  rw [scanString_quoted]
  show scanMember fuel depth (.ofList k.toList) s = _
  rw [String.ofList_toList]

theorem scanMember_of_scanValue {j : Json} (k : String)
    (h : scanValue fuel depth s = (j, some r)) :
    scanMember fuel depth k s = scanAfterMember fuel depth (k, j) r := by
  rw [scanMember, h]

/-! #### Whole values -/

theorem itemChars_cons_cons (j k : Json) (items : List Json) :
    itemChars (j :: k :: items) = j.chars ++ ',' :: itemChars (k :: items) := rfl

theorem memberChars_cons_cons (k : String) (j : Json) (m : String × Json)
    (members : List (String × Json)) : memberChars ((k, j) :: m :: members)
      = quote k ++ ':' :: (j.chars ++ ',' :: memberChars (m :: members)) := rfl

/-- An object with members does not end at once. -/
theorem scanObject_memberChars (m : String × Json) (members : List (String × Json))
    (s : List Char) : scanObject fuel depth (memberChars (m :: members) ++ s)
      = scanMembers fuel depth (memberChars (m :: members) ++ s) := by
  obtain ⟨r, hr⟩ : ∃ r, memberChars (m :: members) ++ s = '"' :: r := by
    cases members <;> exact ⟨_, rfl⟩
  rw [hr]
  rfl

theorem scanList_itemChars {j : Json} (h : j.Fits) (items : List Json) (s : List Char) :
    scanList fuel depth (itemChars (j :: items) ++ s)
      = scanItems fuel depth (itemChars (j :: items) ++ s) := by
  obtain ⟨c, r, hr, hspace, hclose⟩ : ∃ c r, itemChars (j :: items) ++ s = c :: r ∧
      isSpace c = false ∧ c ≠ ']' := by
    obtain ⟨c, r, hchars, hc⟩ := exists_cons_chars h
    cases items with
    | nil => exact ⟨c, _, by rw [itemChars, hchars]; rfl, hc⟩
    | cons k items => exact ⟨c, _, by rw [itemChars_cons_cons, hchars]; rfl, hc⟩
  rw [hr]
  exact scanList_of_ne (skipSpace_cons hspace r) fun r' heq => hclose (List.cons.inj heq).1

mutual

/-- A value is read from the front of a text. -/
theorem scanValue_chars : ∀ {j : Json}, j.Fits → ∀ {fuel depth : Nat} {rest : List Char},
    2 * j.chars.length ≤ fuel + 1 → j.nesting ≤ depth → EndsNumber rest →
      scanValue fuel depth (j.chars ++ rest) = (j.reread, some rest)
  | .null, _, fuel + 1, _, rest, _, _, _ => by
    rw [chars, nullChars, scanValue]
    rfl
  | .bool b, _, fuel + 1, _, rest, _, _, _ => by
    rw [chars, scanValue]
    cases b <;> rfl
  | .number n, h, fuel + 1, _, rest, _, _, hrest => by
    rw [Fits] at h
    rw [chars, reread]
    exact scanValue_numberChars h hrest fuel _
  | .text s, _, fuel + 1, depth, rest, _, _, _ => scanValue_quote fuel depth s rest
  | .array items, h, fuel + 1, depth, rest, hfuel, hdepth, _ => by
    rw [Fits] at h
    rw [nesting] at hdepth
    obtain ⟨depth, rfl⟩ : ∃ d, depth = d + 1 := ⟨depth - 1, by omega⟩
    rw [chars, List.length_cons, List.length_append, List.length_singleton] at hfuel
    rw [chars, List.cons_append, List.append_assoc, List.singleton_append, scanValue_bracket]
    have hlist : scanList fuel depth (itemChars items ++ ']' :: rest)
        = (itemsReread items, some rest) := by
      cases items with
      | nil => rfl
      | cons j items =>
        rw [ItemsFit] at h
        rw [scanList_itemChars h.1]
        exact scanItems_itemChars (List.cons_ne_nil _ _) h (by omega) (by omega)
    rw [hlist, reread]
  | .object members, h, fuel + 1, depth, rest, hfuel, hdepth, _ => by
    rw [Fits] at h
    rw [nesting] at hdepth
    obtain ⟨depth, rfl⟩ : ∃ d, depth = d + 1 := ⟨depth - 1, by omega⟩
    rw [chars, List.length_cons, List.length_append, List.length_singleton] at hfuel
    rw [chars, List.cons_append, List.append_assoc, List.singleton_append, scanValue_brace]
    have hlist : scanObject fuel depth (memberChars members ++ '\x7d' :: rest)
        = (membersReread members, some rest) := by
      cases members with
      | nil => rfl
      | cons m members =>
        rw [scanObject_memberChars]
        exact scanMembers_memberChars (List.cons_ne_nil _ _) h (by omega) (by omega)
    rw [hlist, reread]
  | .unreadable, h, _, _, _, _, _, _ => absurd h (by rintro ⟨⟩)
  | j, h, 0, _, _, hfuel, _, _ => by
    have hpos := length_chars_pos h
    omega

theorem scanItems_itemChars : ∀ {items : List Json}, items ≠ [] → ItemsFit items →
    ∀ {fuel depth : Nat} {rest : List Char}, 2 * (itemChars items).length ≤ fuel →
      itemsNesting items ≤ depth →
        scanItems fuel depth (itemChars items ++ ']' :: rest)
          = (itemsReread items, some rest)
  | [], hne, _, _, _, _, _, _ => absurd rfl hne
  | [j], _, h, fuel, depth, rest, hfuel, hdepth => by
    have hpos := length_chars_pos h.1
    rw [itemChars] at hfuel
    rw [itemsNesting] at hdepth
    obtain ⟨fuel, rfl⟩ : ∃ f, fuel = f + 1 := ⟨fuel - 1, by omega⟩
    have hvalue : scanValue fuel depth (j.chars ++ ']' :: rest)
        = (j.reread, some (']' :: rest)) :=
      scanValue_chars h.1 (by omega) (by omega) (endsNumber_cons rfl rest)
    rw [itemChars, scanItems_of_scanValue hvalue]
    rfl
  | j :: k :: items, _, h, fuel, depth, rest, hfuel, hdepth => by
    have hpos := length_chars_pos h.1
    rw [itemChars_cons_cons, List.length_append, List.length_cons] at hfuel
    rw [itemsNesting] at hdepth
    obtain ⟨fuel, rfl⟩ : ∃ f, fuel = f + 1 := ⟨fuel - 1, by omega⟩
    have hvalue : scanValue fuel depth (j.chars ++ ',' :: (itemChars (k :: items) ++ ']' :: rest))
        = (j.reread, some (',' :: (itemChars (k :: items) ++ ']' :: rest))) :=
      scanValue_chars h.1 (by omega) (by omega) (endsNumber_cons rfl _)
    have hitems : scanItems fuel depth (itemChars (k :: items) ++ ']' :: rest)
        = (itemsReread (k :: items), some rest) :=
      scanItems_itemChars (List.cons_ne_nil _ _) h.2 (by omega) (by omega)
    rw [itemChars_cons_cons, List.append_assoc, List.cons_append, scanItems_of_scanValue hvalue]
    show (j.reread :: (scanItems fuel depth (itemChars (k :: items) ++ ']' :: rest)).1,
      (scanItems fuel depth (itemChars (k :: items) ++ ']' :: rest)).2) = _
    rw [hitems]
    rfl

theorem scanMembers_memberChars : ∀ {members : List (String × Json)}, members ≠ [] →
    MembersFit members → ∀ {fuel depth : Nat} {rest : List Char},
      2 * (memberChars members).length ≤ fuel → membersNesting members ≤ depth →
        scanMembers fuel depth (memberChars members ++ '\x7d' :: rest)
          = (membersReread members, some rest)
  | [], hne, _, _, _, _, _, _ => absurd rfl hne
  | [(key, j)], _, h, fuel, depth, rest, hfuel, hdepth => by
    rw [memberChars, List.length_append, List.length_cons] at hfuel
    rw [membersNesting] at hdepth
    obtain ⟨fuel, rfl⟩ : ∃ f, fuel = f + 1 := ⟨fuel - 1, by omega⟩
    have hvalue : scanValue fuel depth (j.chars ++ '\x7d' :: rest)
        = (j.reread, some ('\x7d' :: rest)) :=
      scanValue_chars h.1 (by omega) (by omega) (endsNumber_cons rfl rest)
    rw [memberChars, List.append_assoc, List.cons_append, scanMembers_quote,
      scanMember_of_scanValue key hvalue]
    rfl
  | (key, j) :: m :: members, _, h, fuel, depth, rest, hfuel, hdepth => by
    rw [memberChars_cons_cons, List.length_append, List.length_cons, List.length_append,
      List.length_cons] at hfuel
    rw [membersNesting] at hdepth
    obtain ⟨fuel, rfl⟩ : ∃ f, fuel = f + 1 := ⟨fuel - 1, by omega⟩
    have hvalue : scanValue fuel depth
          (j.chars ++ ',' :: (memberChars (m :: members) ++ '\x7d' :: rest))
        = (j.reread, some (',' :: (memberChars (m :: members) ++ '\x7d' :: rest))) :=
      scanValue_chars h.1 (by omega) (by omega) (endsNumber_cons rfl _)
    have hmembers : scanMembers fuel depth (memberChars (m :: members) ++ '\x7d' :: rest)
        = (membersReread (m :: members), some rest) :=
      scanMembers_memberChars (List.cons_ne_nil _ _) h.2 (by omega) (by omega)
    rw [memberChars_cons_cons, List.append_assoc, List.cons_append, List.append_assoc,
      List.cons_append, scanMembers_quote, scanMember_of_scanValue key hvalue]
    show ((key, j.reread)
        :: (scanMembers fuel depth (memberChars (m :: members) ++ '\x7d' :: rest)).1,
      (scanMembers fuel depth (memberChars (m :: members) ++ '\x7d' :: rest)).2) = _
    rw [hmembers]
    rfl

end

/-- **Values are read as their texts say.** -/
theorem scanWithin_write_of_fits {j : Json} (h : j.Fits) {depth : Nat}
    (hdepth : j.nesting ≤ depth) :
    scanWithin depth j.write.toList = (j.reread, some []) := by
  have hread : scanValue (2 * j.chars.length + 2) depth (j.chars ++ []) = (j.reread, some []) :=
    scanValue_chars h (by omega) hdepth endsNumber_nil
  rw [List.append_nil] at hread
  rw [scanWithin, write, String.toList_ofList]
  exact hread

/-- **Values read back**: the text of a value without blanks is read as this value, if its numbers
read back. -/
theorem scanWithin_write {j : Json} (h : j.ReadsBack) {depth : Nat} (hdepth : j.nesting ≤ depth) :
    scanWithin depth j.write.toList = (j, some []) := by
  obtain ⟨hfits, hread⟩ := h.fits_and_reread
  have hscan := scanWithin_write_of_fits hfits hdepth
  rwa [hread] at hscan

end Json

end GraphIndex
