import GraphIndex.Proofs.Statement.Substrings

/-!
# Patterns with classes

A pattern with classes stands in a statement in its written form. `Pattern.ofGlob?` reads such a
form the way the store does: a bracket opens a class, a caret behind it turns the class around, and
a minus sign joins the characters beside it unless it stands last. A pattern whose characters keep
apart from these marks is read back as it is (`Pattern.ofGlob?_globText`).

What a pattern says is taken apart item by item: `Pattern.glob_inside_iff` is about one item between
two runs, `Pattern.glob_twice_iff` about a character that stands there twice.
-/

namespace GraphIndex

namespace Pattern

variable {p : Pattern} {item : PatternItem} {items : List ClassItem} {c : Char}
  {s rest : List Char}

/-! ### Reading written patterns -/

/-- The members of a class that stand for a range; one the wrong way round has only its first
character. -/
def rangeItems (first last : Char) : List ClassItem :=
  if first ≤ last then [.range first last] else [.char first]

/-- The members of a class that is written between brackets. -/
def itemsOf : List Char → List ClassItem
  | c :: '-' :: d :: s => rangeItems c d ++ itemsOf s
  | c :: s => .char c :: itemsOf s
  | [] => []

/-- A class up to the bracket that closes it, and what follows; `none` if no bracket does. -/
def closed? (make : List ClassItem → PatternItem) (before : List ClassItem) (s : List Char) :
    Option (PatternItem × List Char) :=
  match s.dropWhile (· != ']') with
  | [] => none
  | _ :: rest => some (make (before ++ itemsOf (s.takeWhile (· != ']'))), rest)

/-- The same, behind the caret; a bracket in the first place is a member. -/
def members? (make : List ClassItem → PatternItem) : List Char → Option (PatternItem × List Char)
  | ']' :: s => closed? make [.char ']'] s
  | s => closed? make [] s

/-- The class behind an opening bracket, and what follows it. -/
def class? : List Char → Option (PatternItem × List Char)
  | '^' :: s => members? .noneOf s
  | s => members? .oneOf s

section

variable {make : List ClassItem → PatternItem} {before : List ClassItem}

theorem length_lt_of_closed? (h : closed? make before s = some (item, rest)) :
    rest.length < s.length := by
  have hle : (s.dropWhile (· != ']')).length ≤ s.length := (List.dropWhile_suffix _).length_le
  unfold closed? at h
  split at h
  · exact absurd h (by rintro ⟨⟩)
  · rename_i hdrop
    obtain ⟨-, rfl⟩ := Prod.mk.inj (Option.some.inj h)
    rw [hdrop] at hle
    exact hle

theorem length_lt_of_members? (h : members? make s = some (item, rest)) :
    rest.length < s.length := by
  unfold members? at h
  split at h
  · exact Nat.lt_succ_of_lt (length_lt_of_closed? h)
  · exact length_lt_of_closed? h

theorem length_lt_of_class? (h : class? s = some (item, rest)) : rest.length < s.length := by
  unfold class? at h
  split at h
  · exact Nat.lt_succ_of_lt (length_lt_of_members? h)
  · exact length_lt_of_members? h

end

/-- Reads a pattern with classes; `none` if a class is not closed. -/
def ofGlob? : List Char → Option Pattern
  | [] => some []
  | c :: s =>
    if c = '*' then (ofGlob? s).map (.anyRun :: ·)
    else if c = '?' then (ofGlob? s).map (.anyOne :: ·)
    else if c = '[' then
      match _h : class? s with
      | none => none
      | some (item, rest) => (ofGlob? rest).map (item :: ·)
    else (ofGlob? s).map (.char c :: ·)
termination_by s => s.length
decreasing_by
  · exact Nat.lt_succ_self _
  · exact Nat.lt_succ_self _
  · exact Nat.lt_succ_of_lt (length_lt_of_class? _h)
  · exact Nat.lt_succ_self _

end Pattern

/-! ### Patterns that are read back -/

namespace ClassItem

/-- Whether a character has a meaning of its own between brackets. -/
def isMark (c : Char) : Bool := c = ']' ∨ c = '-' ∨ c = '^'

/-- Whether a member of a class is made of characters without such a meaning. -/
def isPlain : ClassItem → Bool
  | char c => !isMark c
  | range first last => !isMark first && !isMark last && decide (first ≤ last)

end ClassItem

namespace Pattern

/-- Whether the members of a class are plain; a minus sign may stand last. -/
def arePlain : List ClassItem → Bool
  | [] => true
  | [item] => item.isPlain || item == .char '-'
  | item :: items => item.isPlain && arePlain items

/-- Whether an item of a pattern is written so that it is taken for what it is. -/
def isPlain : PatternItem → Bool
  | .char c => c != '*' && c != '?' && c != '['
  | .oneOf items | .noneOf items => !items.isEmpty && arePlain items
  | .anyOne | .anyRun => true

section

variable {i : ClassItem}

theorem isMark_of_mem_chars (h : i.isPlain = true) :
    ∀ c ∈ i.chars, c = '-' ∨ ClassItem.isMark c = false := by
  cases i with
  | char d => exact List.forall_mem_singleton.mpr (Or.inr ((Bool.not_eq_true' _).mp h))
  | range first last =>
    simp only [ClassItem.isPlain, Bool.and_eq_true, Bool.not_eq_true'] at h
    exact List.forall_mem_cons.mpr ⟨Or.inr h.1.1, List.forall_mem_cons.mpr ⟨Or.inl rfl,
      List.forall_mem_singleton.mpr (Or.inr h.1.2)⟩⟩

/-- What begins with a plain member begins with neither a bracket nor a sign that is a mark. -/
theorem exists_chars_eq_cons (h : i.isPlain = true) :
    ∃ c s, i.chars = c :: s ∧ ClassItem.isMark c = false := by
  cases i with
  | char c => exact ⟨c, [], rfl, (Bool.not_eq_true' _).mp h⟩
  | range first last =>
    simp only [ClassItem.isPlain, Bool.and_eq_true, Bool.not_eq_true'] at h
    exact ⟨first, ['-', last], rfl, h.1.1⟩

/-- A plain member is read as it is, unless it is joined to what follows. -/
theorem itemsOf_append (h : i.isPlain = true) (hs : ∀ d r, s ≠ '-' :: d :: r) :
    itemsOf (i.chars ++ s) = i :: itemsOf s := by
  cases i with
  | char c =>
    show itemsOf (c :: s) = _
    rw [itemsOf]
    exact hs
  | range first last =>
    simp only [ClassItem.isPlain, Bool.and_eq_true, decide_eq_true_iff] at h
    show itemsOf (first :: '-' :: last :: s) = _
    rw [itemsOf, rangeItems, if_pos h.2]
    rfl

/-- Plain members begin with a minus sign only where it is all there is. -/
theorem flatMap_chars_ne (h : arePlain items = true) (d : Char) (r : List Char) :
    items.flatMap ClassItem.chars ≠ '-' :: d :: r := by
  have hplain : ∀ {i : ClassItem} (s : List Char), i.isPlain = true →
      i.chars ++ s ≠ '-' :: d :: r := by
    intro i s hi heq
    obtain ⟨c, t, ht, hc⟩ := exists_chars_eq_cons hi
    rw [ht] at heq
    obtain ⟨rfl, -⟩ := List.cons.inj heq
    exact absurd hc (by decide)
  fun_induction arePlain items with
  | case1 => exact (List.cons_ne_nil _ _).symm
  | case2 i =>
    rw [Bool.or_eq_true, beq_iff_eq] at h
    rw [List.flatMap_cons]
    rcases h with hi | rfl
    · exact hplain _ hi
    · simp [ClassItem.chars]
  | case3 i items _ _ =>
    rw [Bool.and_eq_true] at h
    rw [List.flatMap_cons]
    exact hplain _ h.1

/-- The members of a class are read back. -/
theorem itemsOf_chars (h : arePlain items = true) :
    itemsOf (items.flatMap ClassItem.chars) = items := by
  fun_induction arePlain items with
  | case1 => rfl
  | case2 i =>
    rw [Bool.or_eq_true, beq_iff_eq] at h
    rw [List.flatMap_cons, List.flatMap_nil]
    rcases h with hi | rfl
    · exact itemsOf_append hi (by simp)
    · rfl
  | case3 i items _ ih =>
    rw [Bool.and_eq_true] at h
    rw [List.flatMap_cons, itemsOf_append h.1 (flatMap_chars_ne h.2), ih h.2]

/-- No bracket closes a class before its members end. -/
theorem ne_bracket_of_mem (h : arePlain items = true) :
    ∀ c ∈ items.flatMap ClassItem.chars, (c != ']') = true := by
  have hplain : ∀ {i : ClassItem}, i.isPlain = true → ∀ c ∈ i.chars, (c != ']') = true := by
    intro i hi c hc
    rcases isMark_of_mem_chars hi c hc with rfl | hmark
    · rfl
    · rw [bne_iff_ne]
      rintro rfl
      exact absurd hmark (by decide)
  fun_induction arePlain items with
  | case1 => exact fun c hc => absurd hc List.not_mem_nil
  | case2 i =>
    rw [Bool.or_eq_true, beq_iff_eq] at h
    rw [List.flatMap_cons, List.flatMap_nil, List.append_nil]
    rcases h with hi | rfl
    · exact hplain hi
    · exact List.forall_mem_singleton.mpr rfl
  | case3 i items _ ih =>
    rw [Bool.and_eq_true] at h
    rw [List.flatMap_cons, List.forall_mem_append]
    exact ⟨hplain h.1, ih h.2⟩

theorem closed?_chars (make : List ClassItem → PatternItem) (h : arePlain items = true)
    (rest : List Char) : closed? make [] (items.flatMap ClassItem.chars ++ ']' :: rest)
      = some (make items, rest) := by
  have hdrop : (']' :: rest).dropWhile (· != ']') = ']' :: rest := rfl
  have htake : (']' :: rest).takeWhile (· != ']') = [] := rfl
  unfold closed?
  rw [List.dropWhile_append_of_pos (ne_bracket_of_mem h), hdrop,
    List.takeWhile_append_of_pos (ne_bracket_of_mem h), htake, List.append_nil, itemsOf_chars h]
  rfl

/-- The first of the members of a class is no mark but perhaps a minus sign. -/
theorem exists_flatMap_chars_eq (hne : items ≠ []) (h : arePlain items = true) :
    ∃ c s, items.flatMap ClassItem.chars = c :: s ∧ c ≠ ']' ∧ c ≠ '^' := by
  have hmark : ∀ {c : Char}, ClassItem.isMark c = false → c ≠ ']' ∧ c ≠ '^' := by
    intro c hc
    constructor <;> rintro rfl <;> exact absurd hc (by decide)
  fun_induction arePlain items with
  | case1 => exact absurd rfl hne
  | case2 i =>
    rw [Bool.or_eq_true, beq_iff_eq] at h
    rcases h with hi | rfl
    · obtain ⟨c, s, hs, hc⟩ := exists_chars_eq_cons hi
      exact ⟨c, s, by rw [List.flatMap_cons, hs]; simp, hmark hc⟩
    · exact ⟨'-', [], rfl, by decide⟩
  | case3 i items _ _ =>
    rw [Bool.and_eq_true] at h
    obtain ⟨c, s, hs, hc⟩ := exists_chars_eq_cons h.1
    exact ⟨c, _, by rw [List.flatMap_cons, hs, List.cons_append], hmark hc⟩

theorem members?_chars (make : List ClassItem → PatternItem) (hne : items ≠ [])
    (h : arePlain items = true) (rest : List Char) :
    members? make (items.flatMap ClassItem.chars ++ ']' :: rest) = some (make items, rest) := by
  obtain ⟨c, s, hs, hbracket, -⟩ := exists_flatMap_chars_eq hne h
  have hclosed := closed?_chars make h rest
  rw [hs] at hclosed ⊢
  unfold members?
  split
  · rename_i heq
    exact absurd (List.cons.inj heq).1 hbracket
  · exact hclosed

theorem class?_oneOf (hne : items ≠ []) (h : arePlain items = true) (rest : List Char) :
    class? (items.flatMap ClassItem.chars ++ ']' :: rest) = some (.oneOf items, rest) := by
  obtain ⟨c, s, hs, -, hcaret⟩ := exists_flatMap_chars_eq hne h
  have hmembers := members?_chars .oneOf hne h rest
  rw [hs] at hmembers ⊢
  unfold class?
  split
  · rename_i heq
    exact absurd (List.cons.inj heq).1 hcaret
  · exact hmembers

theorem class?_noneOf (hne : items ≠ []) (h : arePlain items = true) (rest : List Char) :
    class? ('^' :: (items.flatMap ClassItem.chars ++ ']' :: rest)) = some (.noneOf items, rest) :=
  members?_chars .noneOf hne h rest

theorem ofGlob?_bracket {r : PatternItem × List Char} (h : class? s = some r) :
    ofGlob? ('[' :: s) = (ofGlob? r.2).map (r.1 :: ·) := by
  rw [ofGlob?, if_neg (by decide), if_neg (by decide), if_pos rfl]
  split
  · rename_i hnone
    rw [h] at hnone
    exact absurd hnone (by rintro ⟨⟩)
  · rename_i hsome
    obtain rfl := Option.some.inj (h.symm.trans hsome)
    rfl

end

/-- The written form of an item is read as this item. -/
theorem ofGlob?_globChars (h : isPlain item = true) (rest : List Char) :
    ofGlob? (globChars item ++ rest) = (ofGlob? rest).map (item :: ·) := by
  cases item with
  | char c =>
    simp only [isPlain, Bool.and_eq_true, bne_iff_ne] at h
    show ofGlob? (c :: rest) = _
    rw [ofGlob?, if_neg h.1.1, if_neg h.1.2, if_neg h.2]
  | anyOne =>
    show ofGlob? ('?' :: rest) = _
    rw [ofGlob?]
    rfl
  | anyRun =>
    show ofGlob? ('*' :: rest) = _
    rw [ofGlob?]
    rfl
  | oneOf items =>
    simp only [isPlain, Bool.and_eq_true, Bool.not_eq_true', List.isEmpty_eq_false_iff] at h
    rw [globChars, List.cons_append, List.append_assoc]
    exact ofGlob?_bracket (class?_oneOf h.1 h.2 rest)
  | noneOf items =>
    simp only [isPlain, Bool.and_eq_true, Bool.not_eq_true', List.isEmpty_eq_false_iff] at h
    rw [globChars, List.cons_append, List.cons_append, List.append_assoc]
    exact ofGlob?_bracket (class?_noneOf h.1 h.2 rest)

/-- **A written pattern is read back**, if its items are plain. -/
theorem ofGlob?_globText (h : ∀ item ∈ p, isPlain item = true) : ofGlob? (globText p) = some p := by
  induction p with
  | nil =>
    show ofGlob? [] = _
    rw [ofGlob?]
  | cons item p ih =>
    rw [List.forall_mem_cons] at h
    show ofGlob? (globChars item ++ globText p) = _
    rw [ofGlob?_globChars h.1, ih h.2]
    rfl

/-! ### What patterns say -/

/-- An item for one character takes the first one. -/
theorem accepts_item_iff {same : Char → Char → Bool} (hitem : item ≠ .anyRun) :
    accepts same (item :: p) s = true ↔
      ∃ c rest, s = c :: rest ∧ fits same c item = true ∧ accepts same p rest = true := by
  cases s with
  | nil =>
    rw [accepts]
    · simp
    · exact hitem
  | cons c rest =>
    rw [accepts]
    · simp
    · exact hitem

/-- Some character of a text fits the item between two runs. -/
theorem glob_inside_iff (hitem : item ≠ .anyRun) :
    glob [.anyRun, item, .anyRun] s = true ↔ ∃ c ∈ s, fits (· == ·) c item = true := by
  unfold glob
  simp only [accepts_anyRun_iff, accepts_item_iff hitem]
  constructor
  · rintro ⟨before, _, rfl, c, rest, rfl, hfits, -⟩
    exact ⟨c, List.mem_append_right _ List.mem_cons_self, hfits⟩
  · rintro ⟨c, hc, hfits⟩
    obtain ⟨before, rest, rfl⟩ := List.append_of_mem hc
    exact ⟨before, c :: rest, rfl, c, rest, rfl, hfits, rest, [], (List.append_nil rest).symm, rfl⟩

/-- A pattern that names a character twice between runs asks for two such characters. -/
theorem glob_twice_iff :
    glob [.anyRun, .char c, .anyRun, .char c, .anyRun] s = true ↔ 2 ≤ s.count c := by
  have hchar : PatternItem.char c ≠ .anyRun := by rintro ⟨⟩
  -- Behind the first occurrence the pattern asks for another one.
  have hlater : ∀ rest, accepts (· == ·) [.anyRun, .char c, .anyRun] rest = true ↔ c ∈ rest := by
    intro rest
    rw [show accepts (· == ·) [.anyRun, .char c, .anyRun] rest = glob _ rest from rfl,
      glob_inside_iff hchar]
    simp [fits]
  unfold glob
  rw [accepts_anyRun_iff]
  simp only [accepts_item_iff hchar, hlater]
  constructor
  · rintro ⟨before, _, rfl, d, rest, rfl, hfits, hmem⟩
    obtain rfl := beq_iff_eq.mp hfits
    have hcount := List.count_pos_iff.mpr hmem
    rw [List.count_append, List.count_cons_self]
    omega
  · intro htwo
    have hmem : c ∈ s := List.count_pos_iff.mp (by omega)
    obtain ⟨before, rest, rfl, hbefore⟩ := List.eq_append_cons_of_mem hmem
    rw [List.count_append, List.count_cons_self, List.count_eq_zero_of_not_mem hbefore] at htwo
    exact ⟨before, c :: rest, rfl, c, rest, rfl, beq_self_eq_true c,
      List.count_pos_iff.mp (by omega)⟩

/-- A text fits if a character behind its first one fits the item. -/
theorem glob_later_iff (hitem : item ≠ .anyRun) :
    glob [.anyOne, .anyRun, item, .anyRun] s = true ↔
      ∃ c ∈ s.tail, fits (· == ·) c item = true := by
  cases s with
  | nil => simp [glob, accepts]
  | cons c s =>
    show (true && glob [.anyRun, item, .anyRun] s) = true ↔ _
    rw [Bool.true_and, glob_inside_iff hitem]
    rfl

end Pattern

end GraphIndex
