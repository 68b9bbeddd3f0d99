import GraphIndex.Statement.Text
import Mathlib.Data.List.Basic

/-!
# Words and parentheses of a statement

The text of a condition is taken apart into tokens (`tokens?`) and the tokens are put together by
their parentheses (`nest?`). A text with a literal that is not closed, a parenthesis without its
partner or a character that no condition holds is refused.

Both steps go through a text from one end to the other, and `terms?_append` says that a text may be
taken apart piece by piece, as long as no piece is cut inside of a word.
-/

namespace GraphIndex

/-! ### Tokens -/

/-- A token that is no parenthesis. -/
inductive Atom where
  | word (text : List Char)
  /-- A text between single quotes. -/
  | literal (text : List Char)
  | mark (c : Char)
  deriving DecidableEq, Repr

/-- A token of a condition. -/
inductive SqlToken where
  | atom (a : Atom)
  | opening
  | closing
  deriving DecidableEq, Repr

/-- Whether a character belongs to words. -/
def isWordChar (c : Char) : Bool := c.isAlphanum || c = '_'

/-- The token of a character that stands for itself. -/
def punctuation? (c : Char) : Option SqlToken :=
  if c = '(' then some .opening
  else if c = ')' then some .closing
  else if c ∈ ['.', '?', '=', '!', '<', '>'] then some (.atom (.mark c))
  else none

/-- Where a reader of tokens stands: between two of them, or behind the beginning of one. -/
inductive TokenMode where
  | between
  | word (before : List Char)
  | literal (before : List Char)
  deriving DecidableEq, Repr

namespace TokenMode

/-- A character between two tokens: what it completes, and where the reader stands behind it. -/
def start (c : Char) : Option (List SqlToken × TokenMode) :=
  if isWordChar c then some ([], word [c])
  else if c = ' ' then some ([], between)
  else if c = '\'' then some ([], literal [])
  else (punctuation? c).map fun t => ([t], between)

/-- The next character. A quote inside a literal ends it; if the literal goes on behind a doubled
quote, this is the beginning of another one. -/
def step : TokenMode → Char → Option (List SqlToken × TokenMode)
  | between, c => start c
  | word s, c =>
    if isWordChar c then some ([], word (s ++ [c]))
    else (start c).map fun p => (.atom (.word s) :: p.1, p.2)
  | literal s, c =>
    if c = '\'' then some ([.atom (.literal s)], between) else some ([], literal (s ++ [c]))

/-- The end of the text. -/
def finish : TokenMode → Option (List SqlToken)
  | between => some []
  | word s => some [.atom (.word s)]
  | literal _ => none

/-- The tokens of the rest of a text. -/
def tokens? : TokenMode → List Char → Option (List SqlToken)
  | mode, [] => mode.finish
  | mode, c :: s => (mode.step c).bind fun p => (tokens? p.2 s).map (p.1 ++ ·)

end TokenMode

/-- The tokens of a text. -/
def tokens? (s : List Char) : Option (List SqlToken) := TokenMode.between.tokens? s

/-! ### Terms -/

/-- A token, or what stands between two parentheses. -/
inductive Term where
  | atom (a : Atom)
  | parens (terms : List Term)
  deriving Repr

namespace Term

mutual

/-- The tokens of a term. -/
def tokens : Term → List SqlToken
  | atom a => [.atom a]
  | parens ts => .opening :: (allTokens ts ++ [.closing])

/-- The tokens of terms. -/
def allTokens : List Term → List SqlToken
  | [] => []
  | t :: ts => t.tokens ++ allTokens ts

end

end Term

/-- One more token in front of what was read from the end of a text: the terms up to the next
parenthesis that is open there, and behind it those up to the one after this. -/
def nestStep (t : SqlToken) (levels : Option (List (List Term))) : Option (List (List Term)) :=
  match t, levels with
  | .closing, some levels => some ([] :: levels)
  | .opening, some (inside :: outside :: levels) => some ((.parens inside :: outside) :: levels)
  | .atom a, some (terms :: levels) => some ((.atom a :: terms) :: levels)
  | _, _ => none

/-- The terms of tokens; `none` if a parenthesis has no partner. -/
def nest? (ts : List SqlToken) : Option (List Term) :=
  match ts.foldr nestStep (some [[]]) with
  | some [terms] => some terms
  | _ => none

/-- The terms of a text. -/
def terms? (s : List Char) : Option (List Term) := (tokens? s).bind nest?

namespace Term

theorem allTokens_append (ts us : List Term) :
    allTokens (ts ++ us) = allTokens ts ++ allTokens us := by
  induction ts with
  | nil => rfl
  | cons t ts ih => rw [List.cons_append, allTokens, allTokens, ih, List.append_assoc]

mutual

/-- The tokens of a term are read as this term. -/
theorem foldr_tokens : ∀ (t : Term) (terms : List Term) (levels : List (List Term)),
    t.tokens.foldr nestStep (some (terms :: levels)) = some ((t :: terms) :: levels)
  | atom _, _, _ => rfl
  | parens ts, terms, levels => by
    rw [tokens, List.foldr_cons, List.foldr_append]
    show nestStep .opening ((allTokens ts).foldr nestStep (some ([] :: terms :: levels))) = _
    rw [foldr_allTokens ts, List.append_nil]
    rfl

theorem foldr_allTokens : ∀ (ts terms : List Term) (levels : List (List Term)),
    (allTokens ts).foldr nestStep (some (terms :: levels)) = some ((ts ++ terms) :: levels)
  | [], _, _ => rfl
  | t :: ts, terms, levels => by
    rw [allTokens, List.foldr_append, foldr_allTokens ts, foldr_tokens t]
    rfl

end

/-- What was read from the end of a text is this text. -/
theorem eq_of_foldr_nestStep {tokens : List SqlToken} {levels : List (List Term)}
    (h : tokens.foldr nestStep (some [[]]) = some levels) :
    ∃ terms outer, levels = terms :: outer ∧
      tokens = allTokens terms ++ outer.flatMap fun ts => .closing :: allTokens ts := by
  induction tokens generalizing levels with
  | nil =>
    obtain rfl := Option.some.inj h
    exact ⟨[], [], rfl, rfl⟩
  | cons t tokens ih =>
    rw [List.foldr_cons] at h
    cases hrest : tokens.foldr nestStep (some [[]]) with
    | none =>
      rw [hrest] at h
      cases t <;> exact absurd h (by rintro ⟨⟩)
    | some before =>
      obtain ⟨terms, outer, rfl, rfl⟩ := ih hrest
      rw [hrest] at h
      cases t with
      | atom a =>
        obtain rfl := Option.some.inj h
        exact ⟨.atom a :: terms, outer, rfl, rfl⟩
      | closing =>
        obtain rfl := Option.some.inj h
        exact ⟨[], terms :: outer, rfl, rfl⟩
      | opening =>
        cases outer with
        | nil => exact absurd h (by rintro ⟨⟩)
        | cons outside outer =>
          obtain rfl := Option.some.inj h
          refine ⟨.parens terms :: outside, outer, rfl, ?_⟩
          rw [allTokens, tokens, List.flatMap_cons]
          simp only [List.cons_append, List.append_assoc, List.nil_append]

end Term

/-- **Terms of tokens** are the terms that are written with these tokens. -/
theorem nest?_eq_some_iff {tokens : List SqlToken} {terms : List Term} :
    nest? tokens = some terms ↔ Term.allTokens terms = tokens := by
  constructor
  · intro h
    unfold nest? at h
    split at h
    · next hlevels =>
      obtain ⟨ts, outer, heq, rfl⟩ := Term.eq_of_foldr_nestStep hlevels
      obtain ⟨rfl, rfl⟩ := List.cons.inj heq
      obtain rfl := Option.some.inj h
      exact (List.append_nil _).symm
    · exact absurd h (by rintro ⟨⟩)
  · rintro rfl
    unfold nest?
    rw [Term.foldr_allTokens, List.append_nil]

/-! ### Texts piece by piece -/

section

variable {s r : List Char} {ts us : List SqlToken} {mode next : TokenMode} {c : Char}

/-- No word goes on from one text to the next. -/
def Apart (s r : List Char) : Prop :=
  (∀ c ∈ s.getLast?, isWordChar c = false) ∨ ∀ c ∈ r.head?, isWordChar c = false

theorem apart_of_head (hc : isWordChar c = false) (s r : List Char) : Apart s (c :: r) :=
  Or.inr fun _ hd => Option.some.inj hd ▸ hc

theorem apart_of_last (hc : isWordChar c = false) (s r : List Char) : Apart (s ++ [c]) r := by
  refine Or.inl fun d hd => ?_
  rw [List.getLast?_concat] at hd
  exact Option.some.inj hd ▸ hc

namespace TokenMode

/-- The reader stands inside of a word only behind a character of it. -/
theorem isWordChar_of_step {w : List Char} (h : mode.step c = some (ts, word w)) :
    isWordChar c = true := by
  by_contra hc
  rw [Bool.not_eq_true] at hc
  -- Only a character of a word starts one.
  have hstart : ∀ us w, start c ≠ some (us, word w) := by
    intro us w
    unfold start
    rw [hc, if_neg Bool.false_ne_true]
    split_ifs <;> simp
  cases mode with
  | between => exact hstart _ _ h
  | word s =>
    rw [step, hc, if_neg Bool.false_ne_true, Option.map_eq_some_iff] at h
    obtain ⟨⟨us, next⟩, hnext, heq⟩ := h
    obtain ⟨-, rfl⟩ := Prod.mk.inj heq
    exact hstart _ _ hnext
  | literal s =>
    rw [step] at h
    split_ifs at h
    · exact absurd h (by simp)
    · exact absurd h (by simp)

/-- Behind a character that belongs to no word, a word is complete. -/
theorem tokens?_word (hr : ∀ c ∈ r.head?, isWordChar c = false) (w : List Char) :
    (word w).tokens? r = (between.tokens? r).map (.atom (.word w) :: ·) := by
  cases r with
  | nil => rfl
  | cons c r =>
    have hstep : (word w).step c = (start c).map fun p => (.atom (.word w) :: p.1, p.2) := by
      rw [step, hr c rfl, if_neg Bool.false_ne_true]
    rw [tokens?, tokens?, hstep, Option.bind_map, Option.map_bind]
    show (start c).bind _ = (start c).bind _
    congr 1
    funext p
    show (p.2.tokens? r).map _ = ((p.2.tokens? r).map _).map _
    rw [Option.map_map]
    rfl

theorem tokens?_append (hs : mode.tokens? s = some ts)
    (hapart : (s = [] → ∀ w, mode ≠ word w) ∧ (∀ c ∈ s.getLast?, isWordChar c = false) ∨
      ∀ c ∈ r.head?, isWordChar c = false) :
    mode.tokens? (s ++ r) = (between.tokens? r).map (ts ++ ·) := by
  induction s generalizing mode ts with
  | nil =>
    cases mode with
    | between =>
      obtain rfl := Option.some.inj hs
      exact Option.map_id'.symm
    | word w =>
      obtain rfl := Option.some.inj hs
      exact tokens?_word (hapart.resolve_left fun h => h.1 rfl w rfl) w
    | literal w => exact absurd hs (by rintro ⟨⟩)
  | cons c s ih =>
    rw [tokens?, Option.bind_eq_some_iff] at hs
    obtain ⟨⟨before, next⟩, hstep, hrest⟩ := hs
    obtain ⟨after, hafter, rfl⟩ := Option.map_eq_some_iff.mp hrest
    -- A word may be left open only if what follows does not go on with it.
    have hnext : (s = [] → ∀ w, next ≠ word w) ∧ (∀ c ∈ s.getLast?, isWordChar c = false) ∨
        ∀ c ∈ r.head?, isWordChar c = false := by
      refine hapart.imp_left fun ⟨_, hlast⟩ => ⟨?_, ?_⟩
      · rintro rfl w rfl
        have hword := isWordChar_of_step hstep
        rw [hlast c rfl] at hword
        exact absurd hword Bool.false_ne_true
      · intro d hd
        refine hlast d ?_
        rw [List.getLast?_cons, Option.mem_def.mp hd]
        rfl
    rw [List.cons_append, tokens?, hstep, Option.bind_some]
    show (next.tokens? (s ++ r)).map _ = _
    rw [ih hafter hnext, Option.map_map]
    congr 1
    funext us
    exact (List.append_assoc before after us).symm

end TokenMode

/-- The tokens of a text are those of its pieces. -/
theorem tokens?_append (hs : tokens? s = some ts) (hr : tokens? r = some us)
    (hapart : Apart s r) : tokens? (s ++ r) = some (ts ++ us) := by
  have hpieces : tokens? (s ++ r) = (tokens? r).map (ts ++ ·) :=
    TokenMode.tokens?_append hs (hapart.imp_left fun h => ⟨fun _ w => by rintro ⟨⟩, h⟩)
  rw [hpieces, hr]
  rfl

theorem terms?_eq_some_iff {terms : List Term} :
    terms? s = some terms ↔ tokens? s = some (Term.allTokens terms) := by
  unfold terms?
  rw [Option.bind_eq_some_iff]
  simp only [nest?_eq_some_iff]
  constructor
  · rintro ⟨ts, hts, rfl⟩
    exact hts
  · exact fun h => ⟨_, h, rfl⟩

variable {terms rest : List Term}

/-- The terms of a text are those of its pieces. -/
theorem terms?_append (hs : terms? s = some terms) (hr : terms? r = some rest)
    (hapart : Apart s r) : terms? (s ++ r) = some (terms ++ rest) := by
  rw [terms?_eq_some_iff] at hs hr ⊢
  rw [Term.allTokens_append]
  exact tokens?_append hs hr hapart

/-- Parentheses around a text are one term. -/
theorem terms?_parens (hs : terms? s = some terms) :
    terms? ('(' :: (s ++ [')'])) = some [.parens terms] := by
  rw [terms?_eq_some_iff] at hs ⊢
  have hopen : tokens? ['('] = some [.opening] := rfl
  have hclose : tokens? [')'] = some [.closing] := rfl
  have hbody := tokens?_append hs hclose (apart_of_head rfl _ _)
  have hall := tokens?_append hopen hbody (apart_of_last rfl [] _)
  rw [Term.allTokens, Term.tokens, Term.allTokens, List.append_nil]
  exact hall

end

end GraphIndex
