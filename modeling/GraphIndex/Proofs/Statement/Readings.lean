import GraphIndex.Proofs.Statement.Terms
import Mathlib.Data.List.Forall2

/-!
# How conditions are read

The terms of a condition are read with the precedence of statements (`read`): "not" binds closer
than "and", and "and" closer than "or". Parentheses around a whole member are read as what stands
between them, and a nested query by its condition.

A text is closed (`Closed`) if it has no connective outside of parentheses. Closed texts keep
together wherever they are put: joined by a connective they are its members
(`Closed.reads_joined`), and behind "not" or between parentheses they are closed again
(`Closed.not`, `Closed.parens`).
-/

namespace GraphIndex

/-! ### Readings -/

/-- What a condition is read as. -/
inductive Reading where
  /-- A condition without parts that are conditions. -/
  | plain (terms : List Term)
  /-- A test for rows: what stands in front of the condition on them, and this condition. -/
  | nested (head : List Term) (body : Reading)
  | not (r : Reading)
  | group (kind : Connective) (members : List Reading)

/-- Members joined by a connective; one alone is not joined. -/
def Reading.join (kind : Connective) : List Reading → Reading
  | [r] => r
  | rs => group kind rs

/-- Whether an atom is a keyword, in any letter case. -/
def Atom.isKeyword (keyword : String) : Atom → Bool
  | word s => s.map Char.toUpper == keyword.toList
  | _ => false

/-- Whether a term is a keyword. -/
def Term.isKeyword (keyword : String) : Term → Bool
  | atom a => a.isKeyword keyword
  | parens _ => false

/-- Whether a term joins conditions. -/
def Term.isConnective (t : Term) : Bool :=
  t.isKeyword Connective.all.keyword || t.isKeyword Connective.any.keyword

/-- A term whose parts have been read. -/
inductive Item where
  | atom (a : Atom)
  /-- The terms between parentheses, what they are read as, and what those behind the first "where"
  are read as. -/
  | parens (terms : List Term) (inside body : Reading)

namespace Item

/-- The term that was read. -/
def term : Item → Term
  | atom a => .atom a
  | parens ts _ _ => .parens ts

/-- Whether an item is a keyword. -/
def isKeyword (keyword : String) (i : Item) : Bool := i.term.isKeyword keyword

/-- Reads a condition that begins with an atom and has no parts, or is a test for rows. -/
def readFrom (a : Atom) : List Item → Reading
  | [.parens ts _ body] =>
    if a.isKeyword "EXISTS" then .nested (ts.takeWhile (!·.isKeyword "WHERE")) body
    else .plain [.atom a, .parens ts]
  | rest => .plain (.atom a :: rest.map term)

/-- Reads what stands between two connectives. -/
def readMember : List Item → Reading
  | [.parens _ inside _] => inside
  | .atom a :: rest => if a.isKeyword "NOT" then .not (readMember rest) else readFrom a rest
  | is => .plain (is.map term)

/-- Reads members joined by "and". -/
def readChain (is : List Item) : Reading :=
  .join .all ((is.splitOnP (isKeyword Connective.all.keyword)).map readMember)

/-- Reads a whole condition. -/
def read (is : List Item) : Reading :=
  .join .any ((is.splitOnP (isKeyword Connective.any.keyword)).map readChain)

end Item

namespace Term

mutual

/-- The item of a term. -/
def item : Term → Item
  | atom a => .atom a
  | parens ts =>
    .parens ts (Item.read (items ts))
      (Item.read (((items ts).dropWhile (!·.isKeyword "WHERE")).drop 1))

/-- The items of terms. -/
def items : List Term → List Item
  | [] => []
  | t :: ts => t.item :: items ts

end

end Term

/-- Reads the terms of a condition. -/
def read (ts : List Term) : Reading := Item.read (Term.items ts)

section

variable {ts us : List Term} {tss : List (List Term)} {kind : Connective}

namespace Term

theorem items_eq_map (ts : List Term) : items ts = ts.map item := by
  induction ts with
  | nil => rfl
  | cons t ts ih => rw [items, ih, List.map_cons]

@[simp] theorem term_item (t : Term) : t.item.term = t := by
  cases t <;> rfl

theorem map_term_items (ts : List Term) : (items ts).map Item.term = ts := by
  rw [items_eq_map, List.map_map]
  exact List.map_id'' term_item ts

/-- No connective stands outside of parentheses. -/
def AreClosed (ts : List Term) : Prop := ∀ t ∈ ts, t.isConnective = false

theorem isKeyword_of_isConnective {t : Term} (h : t.isConnective = false) (kind : Connective) :
    t.isKeyword kind.keyword = false := by
  rw [isConnective, Bool.or_eq_false_iff] at h
  cases kind with
  | all => exact h.1
  | any => exact h.2

theorem AreClosed.items (h : AreClosed ts) (kind : Connective) :
    ∀ i ∈ items ts, Item.isKeyword kind.keyword i = false := by
  intro i hi
  rw [items_eq_map] at hi
  obtain ⟨t, ht, rfl⟩ := List.mem_map.mp hi
  rw [Item.isKeyword, term_item]
  exact isKeyword_of_isConnective (h t ht) kind

/-- A word of a statement. -/
def ofWord (s : String) : Term := .atom (.word s.toList)

theorem areClosed_parens (ts : List Term) : AreClosed [.parens ts] :=
  List.forall_mem_singleton.mpr rfl

theorem areClosed_word_parens {s : String} (hs : (ofWord s).isConnective = false)
    (ts : List Term) : AreClosed [ofWord s, .parens ts] :=
  List.forall_mem_cons.mpr ⟨hs, areClosed_parens ts⟩

end Term

open Term (AreClosed)

/-- Closed terms are read as one member. -/
theorem readChain_of_closed (h : AreClosed ts) :
    Item.readChain (Term.items ts) = Item.readMember (Term.items ts) := by
  unfold Item.readChain
  rw [List.splitOnP_eq_singleton (h.items .all)]
  rfl

theorem read_of_closed (h : AreClosed ts) : read ts = Item.readMember (Term.items ts) := by
  unfold read Item.read
  rw [List.splitOnP_eq_singleton (h.items .any)]
  exact readChain_of_closed h

theorem splitOnP_intercalate {α : Type} {p : α → Bool} {separator : α} {parts : List (List α)}
    (hne : parts ≠ []) (hseparator : p separator = true)
    (hparts : ∀ l ∈ parts, ∀ a ∈ l, p a = false) :
    ([separator].intercalate parts).splitOnP p = parts := by
  induction parts with
  | nil => exact absurd rfl hne
  | cons l parts ih =>
    rw [List.forall_mem_cons] at hparts
    cases parts with
    | nil => rw [List.intercalate_singleton, List.splitOnP_eq_singleton hparts.1]
    | cons l' parts =>
      rw [List.intercalate_cons_cons, List.append_assoc, List.singleton_append,
        List.splitOnP_append_cons_of_forall_mem hparts.1 _ hseparator,
        ih (List.cons_ne_nil _ _) hparts.2]

theorem mem_intercalate {α : Type} {separator a : α} {parts : List (List α)}
    (h : a ∈ [separator].intercalate parts) : a = separator ∨ ∃ l ∈ parts, a ∈ l := by
  induction parts with
  | nil => exact absurd h List.not_mem_nil
  | cons l parts ih =>
    cases parts with
    | nil =>
      rw [List.intercalate_singleton] at h
      exact Or.inr ⟨l, List.mem_singleton_self l, h⟩
    | cons l' parts =>
      rw [List.intercalate_cons_cons, List.append_assoc, List.singleton_append, List.mem_append,
        List.mem_cons] at h
      rcases h with h | h | h
      · exact Or.inr ⟨l, List.mem_cons_self, h⟩
      · exact Or.inl h
      · exact (ih h).imp_right fun ⟨m, hm, ha⟩ => ⟨m, List.mem_cons_of_mem l hm, ha⟩

theorem items_intercalate (t : Term) (tss : List (List Term)) :
    Term.items ([t].intercalate tss) = [t.item].intercalate (tss.map Term.items) := by
  induction tss with
  | nil => rfl
  | cons ts tss ih =>
    cases tss with
    | nil => rw [List.intercalate_singleton, List.map_singleton, List.intercalate_singleton]
    | cons us tss =>
      rw [List.intercalate_cons_cons, List.map_cons, List.map_cons, List.intercalate_cons_cons,
        ← List.map_cons, ← ih]
      simp only [Term.items_eq_map, List.map_append, List.map_singleton]

/-- **Closed terms that are joined** are the members of the connective. -/
theorem read_intercalate (hne : tss ≠ []) (h : ∀ ts ∈ tss, AreClosed ts) (kind : Connective) :
    read ([Term.ofWord kind.keyword].intercalate tss) = .join kind (tss.map read) := by
  have hparts : ∀ kind : Connective, ∀ is ∈ tss.map Term.items, ∀ i ∈ is,
      Item.isKeyword kind.keyword i = false := by
    intro kind is his
    obtain ⟨ts, hts, rfl⟩ := List.mem_map.mp his
    exact (h ts hts).items kind
  have hne' : tss.map Term.items ≠ [] := by rwa [Ne, List.map_eq_nil_iff]
  have hmembers : (tss.map Term.items).map Item.readMember = tss.map read := by
    rw [List.map_map]
    exact List.map_congr_left fun ts hts => (read_of_closed (h ts hts)).symm
  unfold read Item.read
  rw [items_intercalate]
  cases kind with
  | any =>
    rw [splitOnP_intercalate hne' (by decide) (hparts .any), List.map_map]
    exact congrArg _ (List.map_congr_left fun ts hts =>
      (readChain_of_closed (h ts hts)).trans (read_of_closed (h ts hts)).symm)
  | all =>
    -- No "or" stands between the members, and each "and" between two of them.
    have hor : ∀ i ∈ [(Term.ofWord Connective.all.keyword).item].intercalate (tss.map Term.items),
        Item.isKeyword Connective.any.keyword i = false := by
      intro i hi
      rcases mem_intercalate hi with rfl | ⟨is, his, hi⟩
      · decide
      · exact hparts .any is his i hi
    rw [List.splitOnP_eq_singleton hor, List.map_singleton]
    show Item.readChain _ = _
    unfold Item.readChain
    rw [splitOnP_intercalate hne' (by decide) (hparts .all), hmembers]
    rfl

theorem read_parens (ts : List Term) : read [.parens ts] = read ts :=
  read_of_closed (Term.areClosed_parens ts)

/-- "Not" in front of closed terms negates what they are read as. -/
theorem read_not (h : AreClosed ts) : read (Term.ofWord "NOT" :: ts) = .not (read ts) := by
  have hclosed : AreClosed (Term.ofWord "NOT" :: ts) := List.forall_mem_cons.mpr ⟨by decide, h⟩
  rw [read_of_closed hclosed, read_of_closed h]
  show Item.readMember (.atom (.word "NOT".toList) :: Term.items ts) = _
  rw [Item.readMember, if_pos (by decide)]

/-- A condition that begins neither with "not" nor as a test for rows has no parts. -/
theorem read_plain {a : Atom} (hnot : a.isKeyword "NOT" = false)
    (hexists : a.isKeyword "EXISTS" = false) (h : AreClosed (.atom a :: ts)) :
    read (.atom a :: ts) = .plain (.atom a :: ts) := by
  rw [read_of_closed h]
  show Item.readMember (.atom a :: Term.items ts) = _
  rw [Item.readMember, hnot, if_neg Bool.false_ne_true]
  have hterms := Term.map_term_items ts
  unfold Item.readFrom
  split
  · next heq =>
    rw [heq] at hterms
    rw [hexists, if_neg Bool.false_ne_true, ← hterms]
    rfl
  · rw [hterms]

/-- A test for rows is read as its condition, behind what stands in front of this. -/
theorem read_exists {head : List Term} (hhead : ∀ t ∈ head, t.isKeyword "WHERE" = false)
    (ts : List Term) :
    read [Term.ofWord "EXISTS", .parens (head ++ Term.ofWord "WHERE" :: ts)]
      = .nested head (read ts) := by
  have hclosed : AreClosed [Term.ofWord "EXISTS", .parens (head ++ Term.ofWord "WHERE" :: ts)] :=
    Term.areClosed_word_parens (by decide) _
  have htake : (head ++ Term.ofWord "WHERE" :: ts).takeWhile (!·.isKeyword "WHERE") = head := by
    rw [List.takeWhile_append_of_pos fun t ht => by rw [hhead t ht]; rfl,
      List.takeWhile_cons_of_neg (by decide), List.append_nil]
  have hdrop : (Term.items (head ++ Term.ofWord "WHERE" :: ts)).dropWhile
      (!·.isKeyword "WHERE") = Term.items (Term.ofWord "WHERE" :: ts) := by
    rw [Term.items_eq_map, List.map_append, List.dropWhile_append_of_pos, ← Term.items_eq_map]
    · exact List.dropWhile_cons_of_neg (by decide)
    · intro i hi
      obtain ⟨t, ht, rfl⟩ := List.mem_map.mp hi
      rw [Item.isKeyword, Term.term_item, hhead t ht]
      rfl
  rw [read_of_closed hclosed]
  show Reading.nested _ (Item.read (((Term.items _).dropWhile _).drop 1)) = _
  rw [htake, hdrop]
  rfl

end

/-! ### Closed texts -/

section

open Term (AreClosed)

variable {s : List Char} {ss : List (List Char)} {ts : List Term} {tss : List (List Term)}
  {r : Reading} {rs : List Reading} {kind : Connective}

/-- A text is read as `r`. -/
def ReadsAs (s : List Char) (r : Reading) : Prop := ∃ ts, terms? s = some ts ∧ read ts = r

/-- A text has terms, none of which joins conditions. -/
structure HasClosedTerms (s : List Char) (ts : List Term) : Prop where
  terms : terms? s = some ts
  ne_nil : ts ≠ []
  closed : AreClosed ts

/-- A text without a connective outside of parentheses is read as `r`. -/
def Closed (s : List Char) (r : Reading) : Prop := ∃ ts, HasClosedTerms s ts ∧ read ts = r

theorem Closed.reads (h : Closed s r) : ReadsAs s r := by
  obtain ⟨ts, hts, hr⟩ := h
  exact ⟨ts, hts.terms, hr⟩

/-- A text between parentheses is closed. -/
theorem Closed.parens (h : ReadsAs s r) : Closed ('(' :: (s ++ [')'])) r := by
  obtain ⟨ts, hts, rfl⟩ := h
  exact ⟨[.parens ts], ⟨terms?_parens hts, List.cons_ne_nil _ _, Term.areClosed_parens ts⟩,
    read_parens ts⟩

/-- Behind "not", a text between parentheses is negated. -/
theorem Closed.not (h : ReadsAs s r) : Closed ("NOT (".toList ++ (s ++ [')'])) (.not r) := by
  obtain ⟨ts, hts, rfl⟩ := h
  have hnot : terms? "NOT ".toList = some [Term.ofWord "NOT"] := rfl
  have hterms : terms? ("NOT ".toList ++ '(' :: (s ++ [')']))
      = some [Term.ofWord "NOT", .parens ts] :=
    terms?_append hnot (terms?_parens hts) (apart_of_head rfl _ _)
  refine ⟨[Term.ofWord "NOT", .parens ts], ⟨hterms, List.cons_ne_nil _ _, ?_⟩, ?_⟩
  · exact Term.areClosed_word_parens (by decide) ts
  · rw [read_not (Term.areClosed_parens ts), read_parens]

theorem toList_separator (kind : Connective) :
    kind.separator.toList = ' ' :: (kind.keyword.toList ++ [' ']) := by
  cases kind <;> rfl

/-- The terms of texts that are joined. -/
theorem terms?_intercalate (h : List.Forall₂ (fun s ts => terms? s = some ts) ss tss)
    (kind : Connective) : terms? (kind.separator.toList.intercalate ss)
      = some ([Term.ofWord kind.keyword].intercalate tss) := by
  have hseparator : terms? kind.separator.toList = some [Term.ofWord kind.keyword] := by
    cases kind <;> rfl
  induction h with
  | nil => rfl
  | @cons s ts ss tss hs hrest ih =>
    cases hrest with
    | nil => rw [List.intercalate_singleton, List.intercalate_singleton, hs]
    | @cons s' ts' ss' tss' hs' hrest' =>
      -- A blank stands at both ends of what is put between two texts.
      have hafter : ∀ r, Apart kind.separator.toList r := by
        rw [toList_separator]
        exact fun r => apart_of_last rfl (' ' :: kind.keyword.toList) r
      have hbefore : ∀ r, Apart s (kind.separator.toList ++ r) := by
        rw [toList_separator]
        exact fun r => apart_of_head rfl s _
      rw [List.intercalate_cons_cons, List.intercalate_cons_cons, List.append_assoc,
        List.append_assoc]
      exact terms?_append hs (terms?_append hseparator ih (hafter _)) (hbefore _)

theorem exists_closedTerms (h : List.Forall₂ Closed ss rs) :
    ∃ tss, List.Forall₂ HasClosedTerms ss tss ∧ tss.map read = rs := by
  induction h with
  | nil => exact ⟨[], .nil, rfl⟩
  | cons hs _ ih =>
    obtain ⟨ts, hts, rfl⟩ := hs
    obtain ⟨tss, htss, rfl⟩ := ih
    exact ⟨ts :: tss, .cons hts htss, rfl⟩

theorem forall_areClosed (h : List.Forall₂ HasClosedTerms ss tss) : ∀ ts ∈ tss, AreClosed ts := by
  induction h with
  | nil => exact fun ts hts => absurd hts List.not_mem_nil
  | cons hs _ ih => exact List.forall_mem_cons.mpr ⟨hs.closed, ih⟩

/-- **Closed texts that are joined** are the members of the connective. -/
theorem Closed.reads_joined (h : List.Forall₂ Closed ss rs) (hne : ss ≠ []) (kind : Connective) :
    ReadsAs (kind.separator.toList.intercalate ss) (.join kind rs) := by
  obtain ⟨tss, htss, rfl⟩ := exists_closedTerms h
  have hne' : tss ≠ [] := by
    rintro rfl
    exact hne (List.forall₂_nil_right_iff.mp htss)
  exact ⟨_, terms?_intercalate (htss.imp fun _ _ h => h.terms) kind,
    read_intercalate hne' (forall_areClosed htss) kind⟩

end

end GraphIndex
