import GraphIndex.Proofs.Plan.Numbering
import GraphIndex.Proofs.Statement.Readings
import GraphIndex.Proofs.Statement.Texts

/-!
# Conditions keep together

Conditions are joined as texts, without a look inside. `Condition.reading` is the tree that a
condition is meant as. The text of every condition that a clause turns into is closed and is read as
this tree (`Clause.Becomes.isClosed`), and so is every group of closed conditions and the negation
of one (`Condition.isClosed_group`, `Condition.isClosed_not`).
-/

namespace GraphIndex

open Piece
open Term (AreClosed)

/-! ### What conditions are meant as -/

/-- What stands in a nested query in front of its condition. -/
def Source.head (s : Source) : List Term :=
  [.ofWord "SELECT", .ofWord "1", .ofWord "FROM", .ofWord s.table.name, .ofWord s.name.name]

namespace Condition

/-- A condition without parts, with the terms of its text. -/
def plainReading (c : Condition) : Reading := .plain ((terms? c.text.toList).getD [])

mutual

/-- What a condition is meant as. -/
def reading : Condition → Reading
  | compare left c right => plainReading (compare left c right)
  | like e pattern => plainReading (like e pattern)
  | glob fits e pattern => plainReading (glob fits e pattern)
  | isNull e => plainReading (isNull e)
  | isNotNull e => plainReading (isNotNull e)
  | .exists holds source conditions =>
    let found := Reading.nested source.head (.join .all (readings conditions))
    if holds then found else .not found
  | group kind members => .join kind (readings members)
  | not c => .not c.reading

/-- What the conditions of a list are meant as. -/
def readings : List Condition → List Reading
  | [] => []
  | c :: rest => c.reading :: readings rest

end

theorem readings_eq_map (cs : List Condition) : readings cs = cs.map reading := by
  induction cs with
  | nil => rfl
  | cons c cs ih => rw [readings, ih, List.map_cons]

/-- The text of a condition keeps together and is read as what it is meant as. -/
def IsClosed (c : Condition) : Prop := Closed c.text.toList c.reading

end Condition

/-! ### Names -/

/-- The words that have a meaning between conditions or in front of them. -/
def reservedWords : List String := ["AND", "OR", "NOT", "EXISTS", "WHERE"]

/-- A text is one word, and not a reserved one. -/
structure IsName (s : String) : Prop where
  ne_nil : s.toList ≠ []
  isWordChar : ∀ c ∈ s.toList, isWordChar c = true
  not_reserved : ∀ w ∈ reservedWords, (Term.ofWord s).isKeyword w = false

section

variable {s t : String}

theorem TokenMode.tokens?_of_word {cs : List Char} (h : ∀ c ∈ cs, isWordChar c = true)
    (before : List Char) :
    (TokenMode.word before).tokens? cs = some [.atom (.word (before ++ cs))] := by
  induction cs generalizing before with
  | nil =>
    rw [List.append_nil]
    rfl
  | cons c cs ih =>
    rw [List.forall_mem_cons] at h
    have hstep : (TokenMode.word before).step c = some ([], .word (before ++ [c])) := by
      rw [TokenMode.step, if_pos h.1]
    rw [TokenMode.tokens?, hstep, Option.bind_some, ih h.2, List.append_assoc]
    rfl

theorem IsName.terms? (h : IsName s) : terms? s.toList = some [.ofWord s] := by
  obtain ⟨c, cs, hcs⟩ := List.exists_cons_of_ne_nil h.ne_nil
  have hword := h.isWordChar
  unfold Term.ofWord
  rw [hcs] at hword ⊢
  rw [List.forall_mem_cons] at hword
  have hstep : TokenMode.between.step c = some ([], .word [c]) := by
    rw [TokenMode.step, TokenMode.start, if_pos hword.1]
  rw [terms?_eq_some_iff]
  show TokenMode.between.tokens? (c :: cs) = _
  rw [TokenMode.tokens?, hstep, Option.bind_some, TokenMode.tokens?_of_word hword.2]
  rfl

theorem IsName.isConnective (h : IsName s) : (Term.ofWord s).isConnective = false := by
  rw [Term.isConnective, Bool.or_eq_false_iff]
  exact ⟨h.not_reserved _ (by decide), h.not_reserved _ (by decide)⟩

theorem toUpper_of_isDigit {c : Char} (h : c.isDigit = true) : c.toUpper = c := by
  rw [Char.isDigit, Bool.and_eq_true, decide_eq_true_iff, decide_eq_true_iff] at h
  have hle : c.val.toNat ≤ '9'.val.toNat := h.2
  have hlower : ¬ ('a'.val ≤ c.val ∧ c.val ≤ 'z'.val) := by
    rintro ⟨hge, -⟩
    have hge : 'a'.val.toNat ≤ c.val.toNat := hge
    exact absurd (hge.trans hle) (by decide)
  rw [Char.toUpper, dif_neg hlower]

/-- The reserved words end in letters, so what ends in a digit is none of them. -/
theorem not_reserved_of_isDigit {cs : List Char} {d : Char} (hs : s.toList = cs ++ [d])
    (hd : d.isDigit = true) : ∀ w ∈ reservedWords, (Term.ofWord s).isKeyword w = false := by
  have hletters : ∀ w ∈ reservedWords, w.toList.getLast?.all (!·.isDigit) = true := by decide
  have hlast : (s.toList.map Char.toUpper).getLast? = some d := by
    rw [hs, List.map_append, List.map_singleton, List.getLast?_concat, toUpper_of_isDigit hd]
  intro w hw
  show (s.toList.map Char.toUpper == w.toList) = false
  rw [beq_eq_false_iff_ne]
  intro heq
  have hletter := hletters w hw
  rw [← heq, hlast, Option.all_some, hd] at hletter
  exact absurd hletter (by decide)

/-- Names that end in a number are no reserved words. -/
theorem isName_number (hstem : ∀ c ∈ s.toList, isWordChar c = true) (k : Nat) :
    IsName (s ++ toString k) := by
  have htext : (s ++ toString k).toList = s.toList ++ Nat.toDigits 10 k := by
    rw [String.toList_append]
    simp
  have hdigits : ∀ c ∈ Nat.toDigits 10 k, c.isDigit = true :=
    fun c hc => Nat.isDigit_of_mem_toDigits (by decide) (by decide) hc
  -- No reserved word ends in a digit.
  obtain ⟨cs, d, hcs⟩ : ∃ cs d, Nat.toDigits 10 k = cs ++ [d] :=
    (List.eq_nil_or_concat' _).resolve_left Nat.toDigits_ne_nil
  refine ⟨?_, ?_, ?_⟩
  · rw [htext]
    exact List.append_ne_nil_of_right_ne_nil _ Nat.toDigits_ne_nil
  · rw [htext, List.forall_mem_append]
    refine ⟨hstem, fun c hc => ?_⟩
    rw [isWordChar, Char.isAlphanum, hdigits c hc, Bool.or_true, Bool.true_or]
  · rw [hcs, List.forall_mem_append] at hdigits
    rw [hcs, ← List.append_assoc] at htext
    exact not_reserved_of_isDigit htext (hdigits.2 d (List.mem_singleton_self d))

end

/-! ### Conditions without parts -/

/-- A text begins with what is neither "not" nor "exists", and no connective stands outside of
parentheses. -/
def IsPlainText (s : List Char) : Prop :=
  ∃ a ts, terms? s = some (.atom a :: ts) ∧ AreClosed (.atom a :: ts) ∧
    a.isKeyword "NOT" = false ∧ a.isKeyword "EXISTS" = false

/-- A text begins with no word, and no connective stands outside of parentheses. -/
def isTail (s : List Char) : Bool :=
  s.head?.all (!isWordChar ·) && (terms? s).any (·.all (!·.isConnective))

section

variable {s t : List Char} {a : Alias} {e : Expr}

/-- A plain text is read as its terms. -/
theorem IsPlainText.closed (h : IsPlainText s) : Closed s (.plain ((terms? s).getD [])) := by
  obtain ⟨a, ts, hterms, hclosed, hnot, hexists⟩ := h
  refine ⟨_, ⟨hterms, List.cons_ne_nil _ _, hclosed⟩, ?_⟩
  rw [read_plain hnot hexists hclosed, hterms]
  rfl

theorem exists_of_isTail (h : isTail t = true) :
    (∀ c ∈ t.head?, isWordChar c = false) ∧ ∃ ts, terms? t = some ts ∧ AreClosed ts := by
  rw [isTail, Bool.and_eq_true] at h
  obtain ⟨hfirst, hterms⟩ := h
  constructor
  · intro c hc
    rw [Option.mem_def.mp hc] at hfirst
    exact (Bool.not_eq_true' _).mp hfirst
  · cases hts : terms? t with
    | none =>
      rw [hts] at hterms
      exact absurd hterms Bool.false_ne_true
    | some ts =>
      rw [hts, Option.any_some, List.all_eq_true] at hterms
      exact ⟨ts, rfl, fun t ht => (Bool.not_eq_true' _).mp (hterms t ht)⟩

/-- A plain text may go on. -/
theorem IsPlainText.append (h : IsPlainText s) (ht : isTail t = true) : IsPlainText (s ++ t) := by
  obtain ⟨a, ts, hterms, hclosed, hkeyword⟩ := h
  obtain ⟨hfirst, us, hus, hclosed'⟩ := exists_of_isTail ht
  refine ⟨a, ts ++ us, terms?_append hterms hus (Or.inr hfirst), ?_, hkeyword⟩
  exact List.forall_mem_append.mpr ⟨hclosed, hclosed'⟩

theorem isPlainText_name {s : String} (h : IsName s) : IsPlainText s.toList := by
  refine ⟨_, [], h.terms?, fun t ht => List.mem_singleton.mp ht ▸ h.isConnective, ?_, ?_⟩
  · exact h.not_reserved _ (by decide)
  · exact h.not_reserved _ (by decide)

theorem isPlainText_column (ha : IsName a.name) (c : Column) :
    IsPlainText (columnText a c).toList := by
  have htail : isTail ("." ++ c.name).toList = true := by
    cases c with
    | node c => cases c <;> decide
    | _ => decide
  rw [columnText, String.append_assoc, String.toList_append]
  exact (isPlainText_name ha).append htail

/-- The number that a text is made. -/
theorem isPlainText_cast (hs : IsPlainText s) :
    IsPlainText ("CAST".toList ++ '(' :: (s ++ " AS REAL".toList ++ [')'])) := by
  obtain ⟨b, ts, hts, -⟩ := hs.append (show isTail " AS REAL".toList = true by decide)
  have hterms := terms?_append (show terms? "CAST".toList = some [.ofWord "CAST"] from rfl)
    (terms?_parens hts) (apart_of_head rfl _ _)
  have hcast : (Term.ofWord "CAST").isConnective = false := by decide
  exact ⟨.word "CAST".toList, _, hterms, Term.areClosed_word_parens hcast _, by decide, by decide⟩

/-- The text of an expression. -/
def Expr.text (e : Expr) : String := textOf e.pieces

theorem Expr.isPlainText_column (ha : IsName a.name) (c : Column) :
    IsPlainText (column a c).text.toList := by
  have htext : (column a c).text = columnText a c := by
    show textOf [Piece.text (columnText a c)] = _
    rw [textOf_cons]
    exact String.append_empty
  rw [htext]
  exact GraphIndex.isPlainText_column ha c

theorem Expr.isPlainText_cast (he : IsPlainText e.text.toList) :
    IsPlainText (cast e .real).text.toList := by
  have htext : (cast e .real).text.toList
      = "CAST".toList ++ '(' :: (e.text.toList ++ " AS REAL".toList ++ [')']) := by
    show (textOf (Piece.text "CAST(" :: (e.pieces ++ [Piece.text " AS REAL)"]))).toList = _
    rw [textOf_cons, textOf_append, textOf_cons]
    simp only [String.toList_append, List.append_assoc]
    rfl
  rw [htext]
  exact GraphIndex.isPlainText_cast he

namespace Condition

/-- A condition without parts is closed if its text is that of an expression and what follows. -/
theorem isClosed_of_tail {c : Condition} {ps : List Piece} (hpieces : c.pieces = e.pieces ++ ps)
    (hreading : c.reading = c.plainReading) (he : IsPlainText e.text.toList)
    (htail : isTail (textOf ps).toList = true) : c.IsClosed := by
  have htext : c.text.toList = e.text.toList ++ (textOf ps).toList := by
    rw [text, hpieces, textOf_append, String.toList_append]
    rfl
  unfold IsClosed
  rw [hreading, plainReading, htext]
  exact (he.append htail).closed

theorem isClosed_compare (he : IsPlainText e.text.toList) (c : Comparison) (v : Datum) :
    (compare e c (.bound v)).IsClosed := by
  refine isClosed_of_tail rfl rfl he ?_
  show isTail (textOf [Piece.text (" " ++ c.symbol ++ " "), Piece.text slotMark]).toList = true
  cases c <;> decide

theorem isClosed_compare_empty (he : IsPlainText e.text.toList) (c : Comparison) :
    (compare e c (.quoted "")).IsClosed :=
  isClosed_of_tail rfl rfl he (by cases c <;> rfl)

theorem isClosed_sameColumns (he : IsPlainText e.text.toList) (c : NodeColumn) :
    (sameColumns e (nodeColumn c)).IsClosed :=
  isClosed_of_tail rfl rfl he (by cases c <;> rfl)

theorem isClosed_like (he : IsPlainText e.text.toList) (pattern : String) :
    (like e pattern).IsClosed := by
  refine isClosed_of_tail rfl rfl he ?_
  show isTail (textOf [Piece.text " LIKE ", Piece.text slotMark, Piece.text " ESCAPE '\\'"]).toList
    = true
  decide

theorem isClosed_isNull (he : IsPlainText e.text.toList) : (isNull e).IsClosed :=
  isClosed_of_tail rfl rfl he rfl

theorem isClosed_isNotNull (he : IsPlainText e.text.toList) : (isNotNull e).IsClosed :=
  isClosed_of_tail rfl rfl he rfl

/-- The patterns of numerals stand in literals. -/
theorem isClosed_numeralConditions (he : IsPlainText e.text.toList) :
    ∀ c ∈ numeralConditions e, c.IsClosed := by
  have hglob : ∀ fits p, isTail (textOf [Piece.text ((if fits then " GLOB " else " NOT GLOB ")
      ++ quotedText (.ofList p.globText))]).toList = true → (glob fits e p).IsClosed :=
    fun fits p htail => isClosed_of_tail rfl rfl he htail
  unfold numeralConditions
  simp only [List.forall_mem_cons, List.not_mem_nil, false_implies, implies_true, and_true]
  exact ⟨hglob true someDigit (by decide), hglob false someOther (by decide),
    hglob false laterSign (by decide), hglob false twoPoints (by decide)⟩

end Condition

end

/-! ### Conditions with parts -/

namespace Condition

variable {cs : List Condition} {kind : Connective} {source : Source}

theorem toList_textOf_joined (kind : Connective) (cs : List Condition) :
    (textOf (joined kind.separator (listPieces cs))).toList
      = kind.separator.toList.intercalate (cs.map fun c => c.text.toList) := by
  rw [textOf_joined, String.toList_intercalate, listPieces_eq_map, List.map_map, List.map_map]
  rfl

theorem forall₂_closed (hcs : ∀ c ∈ cs, c.IsClosed) :
    List.Forall₂ Closed (cs.map fun c => c.text.toList) (readings cs) := by
  rw [readings_eq_map, List.forall₂_map_left_iff, List.forall₂_map_right_iff, List.forall₂_same]
  exact hcs

/-- Closed conditions that are joined are read as their members. -/
theorem reads_joined (hne : cs ≠ []) (hcs : ∀ c ∈ cs, c.IsClosed) (kind : Connective) :
    ReadsAs (textOf (joined kind.separator (listPieces cs))).toList
      (.join kind (readings cs)) := by
  have hne' : (cs.map fun c => c.text.toList) ≠ [] := by rwa [Ne, List.map_eq_nil_iff]
  rw [toList_textOf_joined]
  exact Closed.reads_joined (forall₂_closed hcs) hne' kind

/-- A group is closed, whatever joins its members. -/
theorem isClosed_group (hne : cs ≠ []) (hcs : ∀ c ∈ cs, c.IsClosed) (kind : Connective) :
    (group kind cs).IsClosed := by
  have htext : (group kind cs).text.toList
      = '(' :: ((textOf (joined kind.separator (listPieces cs))).toList ++ [')']) := by
    show (textOf (Piece.text "(" :: (joined kind.separator (listPieces cs)
      ++ [Piece.text ")"]))).toList = _
    rw [textOf_cons, textOf_append, String.toList_append, String.toList_append]
    rfl
  unfold IsClosed
  rw [htext]
  exact Closed.parens (reads_joined hne hcs kind)

/-- The negation of a closed condition is closed. -/
theorem isClosed_not {c : Condition} (hc : c.IsClosed) : (Condition.not c).IsClosed := by
  have htext : (Condition.not c).text.toList = "NOT (".toList ++ (c.text.toList ++ [')']) := by
    show (textOf (Piece.text "NOT (" :: (c.pieces ++ [Piece.text ")"]))).toList = _
    rw [textOf_cons, textOf_append, String.toList_append, String.toList_append]
    rfl
  unfold IsClosed
  rw [htext]
  exact Closed.not hc.reads

theorem apart_blank (s : String) (t : List Char) : Apart (s ++ " ").toList t := by
  rw [String.toList_append]
  exact apart_of_last rfl _ _

/-- What stands in a nested query in front of its condition. -/
def nestedHead (s : Source) : String :=
  "SELECT 1 FROM " ++ s.table.name ++ " " ++ s.name.name ++ " WHERE "

theorem toList_nestedText (s : Source) :
    s.nestedText.toList = "EXISTS ".toList ++ '(' :: (nestedHead s).toList := by
  have hopening : "EXISTS (SELECT 1 FROM ".toList
      = "EXISTS ".toList ++ '(' :: "SELECT 1 FROM ".toList := rfl
  unfold Source.nestedText nestedHead
  simp only [String.toList_append, hopening, List.append_assoc, List.cons_append]

theorem terms?_nestedHead (hname : IsName source.name.name) :
    terms? (nestedHead source).toList = some (source.head ++ [.ofWord "WHERE"]) := by
  have htable : terms? ("SELECT 1 FROM " ++ source.table.name ++ " ").toList
      = some [.ofWord "SELECT", .ofWord "1", .ofWord "FROM", .ofWord source.table.name] := by
    cases source.table <;> rfl
  have hwhere : terms? " WHERE ".toList = some [.ofWord "WHERE"] := rfl
  unfold nestedHead
  rw [String.toList_append, String.toList_append]
  exact terms?_append (terms?_append htable hname.terms? (apart_blank _ _)) hwhere
    (apart_of_head (c := ' ') rfl _ _)

/-- A test for rows is one word and parentheses. -/
theorem hasClosedTerms_exists {body : List Char} {ts : List Term}
    (hname : IsName source.name.name) (hbody : terms? body = some ts) :
    HasClosedTerms (source.nestedText.toList ++ (body ++ [')']))
      [.ofWord "EXISTS", .parens (source.head ++ .ofWord "WHERE" :: ts)] := by
  have hhead : nestedHead source
      = "SELECT 1 FROM " ++ source.table.name ++ " " ++ source.name.name ++ " WHERE" ++ " " := by
    unfold nestedHead
    rw [show " WHERE " = " WHERE" ++ " " from rfl, ← String.append_assoc]
  -- The head ends in a blank, so that no word runs over into the body.
  have hinside : terms? ((nestedHead source).toList ++ body)
      = some (source.head ++ .ofWord "WHERE" :: ts) := by
    rw [terms?_append (terms?_nestedHead hname) hbody (hhead ▸ apart_blank _ _),
      List.append_assoc, List.singleton_append]
  have htext : source.nestedText.toList ++ (body ++ [')'])
      = "EXISTS ".toList ++ '(' :: ((nestedHead source).toList ++ body ++ [')']) := by
    simp only [toList_nestedText, List.append_assoc, List.cons_append]
  have hexists : terms? "EXISTS ".toList = some [.ofWord "EXISTS"] := rfl
  rw [htext]
  exact ⟨terms?_append hexists (terms?_parens hinside) (apart_of_head rfl _ _),
    List.cons_ne_nil _ _, Term.areClosed_word_parens (by decide) _⟩

theorem head_isKeyword_where (hname : IsName source.name.name) :
    ∀ t ∈ source.head, t.isKeyword "WHERE" = false := by
  have htable : (Term.ofWord source.table.name).isKeyword "WHERE" = false := by
    cases source.table <;> decide
  unfold Source.head
  simp only [List.forall_mem_cons, List.not_mem_nil, false_implies, implies_true, and_true]
  exact ⟨by decide, by decide, by decide, htable, hname.not_reserved _ (by decide)⟩

/-- A test for rows is closed, and so is its negation. -/
theorem isClosed_exists (hname : IsName source.name.name) (hne : cs ≠ [])
    (hcs : ∀ c ∈ cs, c.IsClosed) (holds : Bool) :
    (Condition.exists holds source cs).IsClosed := by
  obtain ⟨ts, hts, hread⟩ := reads_joined hne hcs .all
  have hfound := hasClosedTerms_exists hname hts
  have hreading := read_exists (head_isKeyword_where hname) ts
  -- The text is an optional negation before a word and one pair of parentheses.
  have htext : (Condition.exists holds source cs).text.toList
      = (if holds then [] else "NOT ".toList) ++ (source.nestedText.toList
        ++ ((textOf (joined Connective.all.separator (listPieces cs))).toList ++ [')'])) := by
    show (textOf (Piece.text ((if holds then "" else "NOT ") ++ source.nestedText)
      :: (joined Connective.all.separator (listPieces cs) ++ [Piece.text ")"]))).toList = _
    rw [textOf_cons, textOf_append, String.toList_append, String.toList_append]
    show ((if holds then "" else "NOT ") ++ source.nestedText).toList ++ _ = _
    rw [String.toList_append, List.append_assoc]
    cases holds <;> rfl
  unfold IsClosed
  rw [htext, reading, ← hread]
  cases holds with
  | true => exact ⟨_, hfound, hreading⟩
  | false =>
    have hnot : terms? "NOT ".toList = some [.ofWord "NOT"] := rfl
    have hterms := terms?_append hnot hfound.terms (apart_blank "NOT" _)
    refine ⟨_, ⟨hterms, List.cons_ne_nil _ _, ?_⟩, ?_⟩
    · exact List.forall_mem_cons.mpr ⟨by decide, hfound.closed⟩
    · rw [List.singleton_append, read_not hfound.closed, hreading]
      rfl

end Condition

/-! ### Conditions of clauses -/

theorem isWordChar_of_all {s : String} (h : s.toList.all isWordChar = true) :
    ∀ c ∈ s.toList, isWordChar c = true :=
  List.all_eq_true.mp h

theorem isName_node : IsName Alias.node.name :=
  ⟨by decide, isWordChar_of_all (by decide), by decide⟩

theorem isName_parent : IsName Alias.parent.name :=
  ⟨by decide, isWordChar_of_all (by decide), by decide⟩

theorem isName_someParentTag : IsName Alias.someParentTag.name :=
  ⟨by decide, isWordChar_of_all (by decide), by decide⟩

theorem isName_parentTag (k : Nat) : IsName (Alias.parentTag k).name :=
  isName_number (isWordChar_of_all (by decide)) k

theorem isName_parentName (k : Nat) : IsName (Alias.parentName k).name :=
  isName_number (isWordChar_of_all (by decide)) k

section

open Condition

variable {a : Alias} {e : Expr}

theorem isClosed_valueCondition (he : IsPlainText e.text.toList) (asText : Bool) (v : Operand)
    (op : Operator) : (valueCondition e asText v op).IsClosed := by
  cases op with
  | compare c => exact isClosed_compare he c _
  | contains => exact isClosed_like he _
  | present => exact isClosed_isNotNull he
  | missing =>
    refine isClosed_group (List.cons_ne_nil _ _) (List.forall_mem_cons.mpr ⟨?_, ?_⟩) .any
    · exact isClosed_isNull he
    · exact List.forall_mem_singleton.mpr (isClosed_compare_empty he .equal)

theorem isClosed_numeralComparison (he : IsPlainText e.text.toList) (c : Comparison)
    (number : Datum) : (numeralComparison e c number).IsClosed := by
  refine isClosed_group (List.append_ne_nil_of_left_ne_nil (List.cons_ne_nil _ _) _)
    (List.forall_mem_append.mpr ⟨?_, ?_⟩) .all
  · exact isClosed_numeralConditions he
  · exact List.forall_mem_singleton.mpr (isClosed_compare (Expr.isPlainText_cast he) c number)

theorem isClosed_fieldCondition {field : String} {v : Operand} {op : Operator} {holds : Condition}
    (he : IsPlainText e.text.toList) (h : fieldCondition field e v op = .ok holds) :
    holds.IsClosed := by
  rcases fieldCondition_cases h with ⟨-, rfl⟩ | ⟨c, number, -, -, -, rfl⟩
  · exact isClosed_valueCondition he true v op
  · exact isClosed_numeralComparison he c number

theorem isClosed_ofField (ha : IsName a.name) (field : String) :
    ∀ c ∈ ofField a field, c.IsClosed := by
  refine List.forall_mem_cons.mpr ⟨?_, List.forall_mem_singleton.mpr ?_⟩
  · exact isClosed_sameColumns (Expr.isPlainText_column ha _) .id
  · exact isClosed_compare (Expr.isPlainText_column ha _) .equal _

theorem isClosed_fieldPresence (ha : IsName a.name) (holds : Bool) (field : String) :
    (fieldPresence holds a field).IsClosed := by
  have hvalue := Expr.isPlainText_column ha .fieldValue
  refine isClosed_exists ha (List.append_ne_nil_of_left_ne_nil (List.cons_ne_nil _ _) _)
    (List.forall_mem_append.mpr ⟨?_, ?_⟩) holds
  · exact isClosed_ofField ha field
  · refine List.forall_mem_cons.mpr ⟨isClosed_isNotNull hvalue, ?_⟩
    exact List.forall_mem_singleton.mpr (isClosed_compare_empty hvalue .notEqual)

theorem isClosed_parentTagPresence (holds : Bool) : (parentTagPresence holds).IsClosed := by
  refine isClosed_exists isName_someParentTag (List.cons_ne_nil _ _) ?_ holds
  exact List.forall_mem_singleton.mpr
    (isClosed_sameColumns (Expr.isPlainText_column isName_someParentTag _) .parentId)

end

/-- A clause turns into one condition, and this is closed. -/
theorem Clause.Becomes.isClosed {stem : String} (hstem : ∀ c ∈ stem.toList, isWordChar c = true)
    {c : Clause} {nested : Bool} {n k : Nat} {f : Filter} (h : c.Becomes stem nested n f k) :
    ∃ d, f.conditions = [d] ∧ d.IsClosed := by
  have hfield : IsName (Alias.fieldValue stem n).name := isName_number hstem n
  cases h with
  | column k _ =>
    exact ⟨_, rfl, isClosed_valueCondition (Expr.isPlainText_column isName_node _) _ _ _⟩
  | parentName _ _ =>
    exact ⟨_, rfl, isClosed_valueCondition (Expr.isPlainText_column isName_parent _) _ _ _⟩
  | nestedParentName _ _ =>
    refine ⟨_, rfl, Condition.isClosed_exists (isName_parentName n) (List.cons_ne_nil _ _) ?_ true⟩
    have hcolumn := Expr.isPlainText_column (isName_parentName n)
    refine List.forall_mem_cons.mpr ⟨Condition.isClosed_sameColumns (hcolumn _) .parentId, ?_⟩
    exact List.forall_mem_singleton.mpr (isClosed_valueCondition (hcolumn _) _ _ _)
  | parentTagPresence _ _ => exact ⟨_, rfl, isClosed_parentTagPresence _⟩
  | parentTag _ _ _ =>
    have hcolumn := Expr.isPlainText_column (isName_parentTag n)
    exact ⟨_, rfl, isClosed_valueCondition (hcolumn _) _ _ _⟩
  | nestedParentTag _ _ _ =>
    refine ⟨_, rfl, Condition.isClosed_exists (isName_parentTag n) (List.cons_ne_nil _ _) ?_ true⟩
    have hcolumn := Expr.isPlainText_column (isName_parentTag n)
    refine List.forall_mem_cons.mpr ⟨Condition.isClosed_sameColumns (hcolumn _) .parentId, ?_⟩
    exact List.forall_mem_singleton.mpr (isClosed_valueCondition (hcolumn _) _ _ _)
  | fieldPresence field _ _ => exact ⟨_, rfl, isClosed_fieldPresence hfield _ field⟩
  | field field holds _ _ hholds =>
    exact ⟨_, rfl, isClosed_fieldCondition (Expr.isPlainText_column hfield _) hholds⟩
  | nestedField field holds _ _ hholds =>
    refine ⟨_, rfl, Condition.isClosed_exists hfield
      (List.append_ne_nil_of_left_ne_nil (List.cons_ne_nil _ _) _) ?_ true⟩
    refine List.forall_mem_append.mpr ⟨isClosed_ofField hfield field, ?_⟩
    exact List.forall_mem_singleton.mpr
      (isClosed_fieldCondition (Expr.isPlainText_column hfield _) hholds)

end GraphIndex
