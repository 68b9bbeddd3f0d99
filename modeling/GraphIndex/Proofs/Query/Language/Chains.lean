import GraphIndex.Proofs.Query.Language.Conditions

/-!
# Chains of conditions read back from query texts

The tokens of a condition are read as that condition, whatever tokens stand after it, as long as
they do not carry it on (`Entry.recognizes`). What carries a condition on depends on its level:
conditions are read one by one, joined by `and`, and joined by `or`. A group is read at its own
level (`recognizes_joined`), in parentheses as a single condition (`Recognizes.parenthesized`), and
what is read at one level is read at the next (`Recognizes.alone`).
-/

namespace GraphIndex

namespace Language

/-- The levels at which conditions are read: single ones, those joined by `and`, and those joined by
`or`. -/
inductive Level where
  | single
  | conjunction
  | disjunction

namespace Level

/-- The reader of a level. -/
def read : Level → Nat → List Char → Option (Entry × List Char)
  | single => unary
  | conjunction => andChain
  | disjunction => orChain

/-- How many levels lie below. -/
def depth : Level → Nat
  | single => 0
  | conjunction => 1
  | disjunction => 2

/-- The keywords that carry a condition on. -/
def barred : Level → List String
  | single => ["exists", "is"]
  | conjunction => ["and", "exists", "is"]
  | disjunction => ["or", "and", "exists", "is"]

end Level

end Language

namespace Connective

open GraphIndex.Language

/-- The level of the members of a group. -/
def memberLevel : Connective → Level
  | all => .single
  | any => .conjunction

/-- The level of a group. -/
def level : Connective → Level
  | all => .conjunction
  | any => .disjunction

/-- The reader of the members after the first. -/
def readFurther : Connective → Nat → List Char → List Entry × List Char
  | all => andRest
  | any => orRest

theorem depth_level (kind : Connective) :
    kind.level.depth = kind.memberLevel.depth + 1 := by
  cases kind <;> rfl

theorem barred_memberLevel (kind : Connective) :
    kind.memberLevel.barred ⊆ kind.level.barred := by
  cases kind <;> decide

theorem joint_mem_barred (kind : Connective) :
    kind.joint.text ∈ kind.level.barred := by
  cases kind <;> decide

/-- The joining word does not carry a single member on. -/
theorem joint_notMem_barred (kind : Connective) :
    kind.joint.text ∉ kind.memberLevel.barred := by
  cases kind <;> decide

theorem depth_memberLevel_le (kind : Connective) : kind.memberLevel.depth ≤ 1 := by
  cases kind <;> decide

theorem read_level (kind : Connective) (fuel : Nat) (s : List Char) :
    kind.level.read (fuel + 1) s =
      (kind.memberLevel.read fuel s).bind fun (e, s) =>
        some (chain kind e (kind.readFurther fuel s).1, (kind.readFurther fuel s).2) := by
  cases kind <;> rfl

theorem readFurther_succ (kind : Connective) (fuel : Nat) (s : List Char) :
    kind.readFurther (fuel + 1) s =
      match (Language.joint kind.joint.text s).bind (kind.memberLevel.read fuel) with
      | none => ([], s)
      | some (e, s) => (e :: (kind.readFurther fuel s).1, (kind.readFurther fuel s).2) := by
  cases kind <;> rfl

end Connective

namespace Language

variable {kind : Connective} {l : Level} {e : Entry} {es : List Entry} {s : List Char}
  {ts us : List Token}

/-- Whether tokens are read as a condition, whatever ends it, by a reader that has three steps for
every token. -/
def Recognizes (l : Level) (e : Entry) (ts : List Token) : Prop :=
  ∀ us s fuel, EndsBefore l.barred us → Written (ts ++ us) s → 3 * ts.length + l.depth ≤ fuel →
    Reads (l.read fuel s) e us

/-! ### Joining words -/

theorem Follows.written_spaces (h : Follows ts s) : Written ts (spaces s) := by
  cases ts with
  | nil =>
    rw [show s = [] from h]
    rfl
  | cons t ts => exact h.skip.2

theorem Follows.reads_joint {k : Keyword} (h : Follows (.keyword k :: ts) s) :
    ∃ r, joint k.text s = some r ∧ Written ts r := by
  obtain ⟨hsome, hwritten⟩ := h.skip
  obtain ⟨r, hkeyword, hr⟩ := hwritten.passes_keyword
  refine ⟨spaces r, ?_, hr.written_spaces⟩
  unfold joint
  rw [hsome]
  show (keyword k.text (spaces s)).bind _ = _
  rw [hkeyword]
  rfl

theorem Follows.joint_eq_none {words : List String} {w : String} (h : Follows us s)
    (hus : EndsBefore words us) (hmem : w ∈ words) (hw : isWord w = true) :
    joint w s = none := by
  have hnone := h.keyword_eq_none hus hmem hw
  unfold joint
  cases hs : someSpaces s with
  | none => rfl
  | some r =>
    rw [hs] at hnone
    show (keyword w r).bind _ = _
    rw [show keyword w r = none from hnone]
    rfl

/-! ### From one level to the next -/

/-- A single condition may be negated. -/
theorem Recognizes.negate (h : Recognizes .single e ts) :
    Recognizes .single e.negate (.word "not" :: ts) := by
  intro us s fuel hus hs hfuel
  cases fuel with
  | zero => exact absurd hfuel (by rw [List.length_cons]; omega)
  | succ fuel =>
    rw [List.length_cons] at hfuel
    obtain ⟨r, hnot, hr⟩ := hs.passes_keyword
    have hsteps : 3 * ts.length + Level.single.depth ≤ fuel := by omega
    obtain ⟨rest, hread, hrest⟩ := h us _ fuel hus hr.written_spaces hsteps
    exact ⟨rest, unary_of_not hnot hread, hrest⟩

/-- In parentheses every condition is a single one. -/
theorem Recognizes.parenthesized (h : Recognizes .disjunction e ts) :
    Recognizes .single e (.opening :: (ts ++ [.closing])) := by
  intro us s fuel hus hs hfuel
  rw [List.length_cons, List.length_append, List.length_singleton] at hfuel
  rw [List.cons_append, List.append_assoc, List.singleton_append] at hs
  cases fuel with
  | zero => omega
  | succ fuel =>
    have hnot : keyword "not" s = none := by
      obtain ⟨word, rest, hword, -, rfl⟩ := hs
      rw [show word = ['('] from hword]
      exact keyword_cons_eq_none (by decide) (by decide)
    have hsteps : 3 * ts.length + Level.disjunction.depth ≤ fuel := by
      show 3 * ts.length + 2 ≤ fuel
      omega
    obtain ⟨r, hopening, hr⟩ := hs.passes_symbol fun _ hword => hword
    obtain ⟨r', hread, hr'⟩ := h (.closing :: us) _ fuel trivial hr.written_spaces hsteps
    obtain ⟨rest, hclosing, hrest⟩ := hr'.skip.2.passes_symbol fun _ hword => hword
    exact ⟨rest, unary_of_opening hnot hopening hread hclosing, hrest⟩

/-- No condition follows. -/
theorem Follows.readFurther_eq_nil (h : Follows us s) (hus : EndsBefore kind.level.barred us)
    (fuel : Nat) : kind.readFurther fuel s = ([], s) := by
  cases fuel with
  | zero => cases kind <;> rfl
  | succ fuel =>
    rw [kind.readFurther_succ, h.joint_eq_none hus kind.joint_mem_barred kind.joint.isWord]
    rfl

/-- What no other member joins is read at the next level as it stands. -/
theorem Recognizes.alone (kind : Connective) (h : Recognizes kind.memberLevel e ts) :
    Recognizes kind.level e ts := by
  intro us s fuel hus hs hfuel
  rw [kind.depth_level] at hfuel
  cases fuel with
  | zero => omega
  | succ fuel =>
    obtain ⟨rest, hread, hrest⟩ :=
      h us s fuel (hus.mono kind.barred_memberLevel) hs (by omega)
    refine ⟨rest, ?_, hrest⟩
    rw [kind.read_level, hread]
    show some (chain kind e (kind.readFurther fuel rest).1, (kind.readFurther fuel rest).2) = _
    rw [hrest.readFurther_eq_nil hus]
    rfl

/-! ### Groups -/

theorem endsBefore_further (h : EndsBefore kind.level.barred us) :
    EndsBefore kind.memberLevel.barred (Entry.furtherTokens kind es ++ us) := by
  cases es with
  | nil => exact h.mono kind.barred_memberLevel
  | cons e es => exact kind.joint_notMem_barred

/-- Members are read one after another, each after a joining word. -/
theorem reads_further (h : ∀ e ∈ es, Recognizes kind.memberLevel e (e.tokens kind)) {fuel : Nat}
    (hus : EndsBefore kind.level.barred us) (hs : Follows (Entry.furtherTokens kind es ++ us) s)
    (hfuel : 3 * (Entry.furtherTokens kind es).length ≤ fuel) :
    ∃ rest, kind.readFurther fuel s = (es, rest) ∧ Follows us rest := by
  -- Every member leaves the joining word of the next one in front, which does not carry it on.
  induction es generalizing s fuel with
  | nil => exact ⟨s, hs.readFurther_eq_nil hus fuel, hs⟩
  | cons e es ih =>
    obtain ⟨he, hes⟩ := List.forall_mem_cons.mp h
    rw [Entry.furtherTokens, List.length_cons, List.length_append] at hfuel
    rw [Entry.furtherTokens, List.cons_append, List.append_assoc] at hs
    cases fuel with
    | zero => omega
    | succ fuel =>
      have hdepth := kind.depth_memberLevel_le
      have hsteps : 3 * (Entry.furtherTokens kind es).length ≤ fuel := by omega
      obtain ⟨r, hjoint, hr⟩ := hs.reads_joint
      obtain ⟨r', hread, hr'⟩ := he _ r fuel (endsBefore_further hus) hr (by omega)
      obtain ⟨rest, hfurther, hrest⟩ := ih hes hr' hsteps
      have hnext : (joint kind.joint.text s).bind (kind.memberLevel.read fuel) = some (e, r') := by
        rw [hjoint]
        exact hread
      refine ⟨rest, ?_, hrest⟩
      rw [kind.readFurther_succ, hnext]
      dsimp only
      rw [hfurther]

/-- A group is read at its own level. -/
theorem recognizes_joined (kind : Connective)
    (h : ∀ e ∈ es, Recognizes kind.memberLevel e (e.tokens kind)) (hlength : 2 ≤ es.length) :
    Recognizes kind.level (.group kind es false) (Entry.joinedTokens kind es) := by
  intro us s fuel hus hs hfuel
  cases es with
  | nil => exact absurd hlength (by decide)
  | cons e es =>
    -- One step goes to the first member; the joint before each of the others pays for the next one.
    obtain ⟨he, hes⟩ := List.forall_mem_cons.mp h
    rw [Entry.joinedTokens, List.length_append, kind.depth_level] at hfuel
    rw [Entry.joinedTokens, List.append_assoc] at hs
    cases fuel with
    | zero => omega
    | succ fuel =>
      have hsteps : 3 * (Entry.furtherTokens kind es).length ≤ fuel := by omega
      obtain ⟨r, hread, hr⟩ := he _ s fuel (endsBefore_further hus) hs (by omega)
      obtain ⟨rest, hfurther, hrest⟩ := reads_further hes hus hr hsteps
      refine ⟨rest, ?_, hrest⟩
      rw [kind.read_level, hread]
      show some (chain kind e (kind.readFurther fuel r).1, (kind.readFurther fuel r).2) = _
      rw [hfurther]
      cases es with
      | nil =>
        rw [List.length_singleton] at hlength
        omega
      | cons e' es => rfl

theorem Recognizes.member (h : Recognizes .single e ts) (inside : Connective) :
    Recognizes inside.memberLevel e ts := by
  cases inside with
  | all => exact h
  | any => exact h.alone .all

/-- A group is read as a disjunction, whichever word joins it. -/
theorem Recognizes.disjunction (kind : Connective) (h : Recognizes kind.level e ts) :
    Recognizes .disjunction e ts := by
  cases kind with
  | all => exact h.alone .any
  | any => exact h

theorem recognizes_clause {c : Clause} (hc : c.IsPlain) :
    Recognizes .single (.clause { c with negated := false }) c.tokens := by
  intro us s fuel hus hs hfuel
  cases fuel with
  | zero => exact absurd hfuel (by rw [Clause.tokens, List.length_cons]; omega)
  | succ fuel => exact hs.reads_unary hc hus fuel

end Language

namespace Entry

open GraphIndex.Language

theorem recognizes_clause {c : Clause} (hc : c.IsPlain) (inside : Connective) :
    Recognizes .single (clause c) ((clause c).tokens inside) := by
  have hplain := Language.recognizes_clause hc
  obtain ⟨field, operator, value, negated⟩ := c
  rw [tokens]
  cases negated with
  | true => exact hplain.negate
  | false => exact hplain

/-- **Conditions read back**: the tokens of a condition are read as that condition, whatever ends
it. -/
theorem recognizes (e : Entry) (he : e.IsPlain) (inside : Connective) :
    Recognizes inside.memberLevel e (e.tokens inside) := by
  -- A group is read at its own level. In parentheses it is a single condition, which may be
  -- negated; only a conjunction inside a disjunction is a member as it stands.
  induction e using Entry.induction generalizing inside with
  | clause c => exact (recognizes_clause he inside).member inside
  | group kind members negated ih =>
    obtain ⟨hlength, hmembers⟩ := he
    have hjoined : Recognizes kind.level (group kind members false) (joinedTokens kind members) :=
      recognizes_joined kind (fun e he => ih e he (allPlain_iff.mp hmembers e he) kind) hlength
    have hparentheses := (hjoined.disjunction kind).parenthesized
    rw [tokens]
    cases negated with
    | true => exact hparentheses.negate.member inside
    | false =>
      rw [if_neg (by decide)]
      split
      · next hinside =>
        obtain ⟨rfl, rfl⟩ := hinside
        exact hjoined
      · exact hparentheses.member inside

end Entry

end GraphIndex
