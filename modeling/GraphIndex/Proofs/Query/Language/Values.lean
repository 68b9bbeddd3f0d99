import GraphIndex.Proofs.Plan.Complement
import GraphIndex.Proofs.Query.Language.Chains

/-!
# Values in query texts

Every reader takes its part from the front of a text and leaves an end of it. So whatever value
stands in the conditions of a query was read from the text of the query (`Operand.ReadIn`): the text
between two quotes, or a bare value with all its characters; only a test of existence has a value
that is not written (`Query.readIn_of_ofText`).
-/

namespace GraphIndex

open GraphIndex.Language

/-- Where a value in a text may come from. A bare value goes on up to the end of the text or to a
character that cannot stand in one. -/
inductive Operand.ReadIn (text : List Char) : Operand → Prop where
  | unwritten : ReadIn text (.bool true)
  | quoted {t : List Char} (h : t <:+: text) : ReadIn text (.text (.ofList t))
  | bare {token rest : List Char} (hne : token ≠ []) (hin : ∀ c ∈ token, inValue c = true)
      (hends : ∀ c ∈ rest.head?, inValue c = false) (h : token ++ rest <:+ text) :
    ReadIn text (classify token)

/-- Whether the values of a tree come from a text. -/
def Entry.ReadIn (text : List Char) (e : Entry) : Prop := ∀ c ∈ e.clauses, c.value.ReadIn text

theorem Operand.ReadIn.mono {s text : List Char} {v : Operand} (h : v.ReadIn s) (hs : s <:+ text) :
    v.ReadIn text := by
  cases h with
  | unwritten => exact .unwritten
  | quoted h => exact .quoted (h.trans hs.isInfix)
  | bare hne hin hends h => exact .bare hne hin hends (h.trans hs)

theorem Entry.ReadIn.mono {s text : List Char} {e : Entry} (h : e.ReadIn s) (hs : s <:+ text) :
    e.ReadIn text := fun c hc => (h c hc).mono hs

/-- A negation leaves the values as they are. -/
theorem Entry.ReadIn.negate {s : List Char} {e : Entry} (h : e.ReadIn s) : e.negate.ReadIn s := by
  cases e with
  | clause c =>
    intro d hd
    rw [List.mem_singleton.mp hd]
    exact h c (List.mem_singleton_self c)
  | group kind members negated => exact h

theorem Entry.ReadIn.chain {s : List Char} {kind : Connective} {e : Entry} {es : List Entry}
    (h : e.ReadIn s) (hes : ∀ e' ∈ es, e'.ReadIn s) : (Language.chain kind e es).ReadIn s := by
  cases es with
  | nil => exact h
  | cons e' es =>
    intro c hc
    obtain ⟨member, hmember, hmem⟩ := Entry.mem_allClauses.mp hc
    rcases List.mem_cons.mp hmember with rfl | hmember
    · exact h c hmem
    · exact hes member hmember c hmem

namespace Language

variable {s r : List Char} {e : Entry} {es : List Entry} {v : Operand}

/-! ### Words -/

theorem spaces_suffix (s : List Char) : spaces s <:+ s := List.dropWhile_suffix _

theorem someSpaces_suffix (h : someSpaces s = some r) : r <:+ s := by
  cases s with
  | nil => exact absurd h (by rintro ⟨⟩)
  | cons c s =>
    rw [someSpaces] at h
    split at h
    · obtain rfl := Option.some.inj h
      exact (spaces_suffix s).trans (List.suffix_cons c s)
    · exact absurd h (by rintro ⟨⟩)

theorem symbol_suffix {c : Char} (h : symbol c s = some r) : r <:+ s := by
  cases s with
  | nil => exact absurd h (by rintro ⟨⟩)
  | cons d s =>
    rw [symbol] at h
    split at h
    · obtain rfl := Option.some.inj h
      exact List.suffix_cons d s
    · exact absurd h (by rintro ⟨⟩)

theorem keyword_suffix {w : String} (h : keyword w s = some r) : r <:+ s := by
  obtain ⟨u, -, hs⟩ := wordPart_eq_some_iff.mp (keyword_eq_some_iff_wordPart.mp h).1
  exact ⟨u, hs.symm⟩

theorem joint_suffix {w : String} (h : joint w s = some r) : r <:+ s := by
  unfold joint at h
  simp only [Option.bind_eq_bind, Option.bind_eq_some_iff, Option.some.injEq] at h
  obtain ⟨s₁, h₁, s₂, h₂, rfl⟩ := h
  exact (spaces_suffix s₂).trans ((keyword_suffix h₂).trans (someSpaces_suffix h₁))

theorem name_suffix {n : String} (h : name s = some (n, r)) : r <:+ s := by
  cases s with
  | nil => exact absurd h (by rintro ⟨⟩)
  | cons c s =>
    rw [name] at h
    split at h
    · obtain ⟨-, rfl⟩ := Prod.mk.inj (Option.some.inj h)
      exact (List.dropWhile_suffix _).trans (List.suffix_cons c s)
    · exact absurd h (by rintro ⟨⟩)

/-- Between its quotes a text stands as it is. -/
theorem quotedRest_eq_some {quote : Char} {t : String} (h : quotedRest quote s = some (t, r)) :
    s = t.toList ++ quote :: r := by
  unfold quotedRest at h
  split at h
  · exact absurd h (by rintro ⟨⟩)
  · next c rest hdrop =>
    obtain ⟨rfl, rfl⟩ := Prod.mk.inj (Option.some.inj h)
    have hquote : c = quote := by
      have hfirst := List.head?_dropWhile_not (· != quote) s
      rw [hdrop] at hfirst
      simpa using hfirst
    rw [String.toList_ofList, ← hquote, ← hdrop, hquote, List.takeWhile_append_dropWhile]

theorem quoted_eq_some {t : String} (h : quoted s = some (t, r)) : t.toList <:+: s ∧ r <:+ s := by
  unfold quoted at h
  split at h
  · obtain rfl := quotedRest_eq_some h
    exact ⟨⟨['"'], '"' :: r, by simp⟩, ⟨'"' :: t.toList ++ ['"'], by simp⟩⟩
  · obtain rfl := quotedRest_eq_some h
    exact ⟨⟨['\x27'], '\x27' :: r, by simp⟩, ⟨'\x27' :: t.toList ++ ['\x27'], by simp⟩⟩
  · exact absurd h (by rintro ⟨⟩)

theorem field_suffix {n : String} (h : field s = some (n, r)) : r <:+ s := by
  unfold field at h
  rw [Option.orElse_eq_orElse, Option.orElse_eq_or, Option.or_eq_some_iff] at h
  rcases h with h | ⟨-, h⟩
  · exact (quoted_eq_some h).2
  · exact name_suffix h

theorem operator_suffix {op : Operator} (h : operator s = some (op, r)) : r <:+ s := by
  have hone : ∀ (c : Char) (s : List Char), s <:+ c :: s := List.suffix_cons
  have htwo : ∀ (c d : Char) (s : List Char), s <:+ c :: d :: s :=
    fun c d s => (hone d s).trans (hone c (d :: s))
  unfold operator at h
  split at h
  case h_10 => exact absurd h (by rintro ⟨⟩)
  all_goals obtain ⟨-, rfl⟩ := Prod.mk.inj (Option.some.inj h)
  all_goals first
    | exact htwo _ _ _
    | exact hone _ _

/-! ### Values -/

/-- A bare value is the longest one in front. -/
theorem readIn_of_bareValue (h : bareValue s = some (v, r)) : v.ReadIn s ∧ r <:+ s := by
  unfold bareValue at h
  split at h
  · exact absurd h (by rintro ⟨⟩)
  · next hne =>
    obtain ⟨rfl, rfl⟩ := Prod.mk.inj (Option.some.inj h)
    have hsplit : s.takeWhile inValue ++ s.dropWhile inValue <:+ s := by
      rw [List.takeWhile_append_dropWhile]
    refine ⟨.bare hne (fun c hc => List.mem_takeWhile_imp hc) (fun c hc => ?_) hsplit,
      List.dropWhile_suffix _⟩
    have hfirst := List.head?_dropWhile_not inValue s
    rw [Option.mem_def.mp hc] at hfirst
    exact hfirst

theorem readIn_of_value (h : value s = some (v, r)) : v.ReadIn s ∧ r <:+ s := by
  unfold value at h
  rw [Option.orElse_eq_orElse, Option.orElse_eq_or, Option.or_eq_some_iff] at h
  rcases h with h | ⟨-, h⟩
  · obtain ⟨⟨t, rest⟩, hquoted, heq⟩ := Option.map_eq_some_iff.mp h
    obtain ⟨rfl, rfl⟩ := Prod.mk.inj heq
    obtain ⟨hin, hrest⟩ := quoted_eq_some hquoted
    refine ⟨?_, hrest⟩
    have hread := Operand.ReadIn.quoted hin
    rwa [String.ofList_toList] at hread
  · exact readIn_of_bareValue h

/-! ### Conditions -/

theorem emptiness_suffix {op : Operator} (h : emptiness s = some (op, r)) : r <:+ s := by
  unfold emptiness at h
  simp only [Option.bind_eq_bind, Option.orElse_eq_orElse, Option.orElse_eq_or,
    Option.bind_eq_some_iff, Option.or_eq_some_iff, Option.some.injEq, Prod.mk.injEq] at h
  obtain ⟨s₁, h₁, s₂, h₂, ⟨s₃, h₃, s₄, h₄, s₅, h₅, -, rfl⟩ | ⟨-, s₃, h₃, -, rfl⟩⟩ := h
  · exact (keyword_suffix h₅).trans <| (someSpaces_suffix h₄).trans <| (keyword_suffix h₃).trans <|
      (someSpaces_suffix h₂).trans (keyword_suffix h₁)
  · exact (keyword_suffix h₃).trans <| (someSpaces_suffix h₂).trans (keyword_suffix h₁)

theorem existenceTest_suffix {op : Operator} (h : existenceTest s = some (op, r)) : r <:+ s := by
  unfold existenceTest at h
  simp only [Option.bind_eq_bind, Option.orElse_eq_orElse, Option.orElse_eq_or,
    Option.bind_eq_some_iff, Option.or_eq_some_iff, Option.map_eq_some_iff, Prod.mk.injEq] at h
  obtain ⟨s₁, h₁, ⟨s₂, h₂, -, rfl⟩ | ⟨-, h₂⟩⟩ := h
  · exact (keyword_suffix h₂).trans (someSpaces_suffix h₁)
  · exact (emptiness_suffix h₂).trans (someSpaces_suffix h₁)

theorem readIn_of_comparison {op : Operator} (h : comparison s = some ((op, v), r)) :
    v.ReadIn s ∧ r <:+ s := by
  unfold comparison at h
  simp only [Option.bind_eq_bind, Option.bind_eq_some_iff, Prod.exists, Option.some.injEq,
    Prod.mk.injEq] at h
  obtain ⟨op', s₁, h₁, v', s₂, h₂, ⟨-, rfl⟩, rfl⟩ := h
  obtain ⟨hread, hrest⟩ := readIn_of_value h₂
  have hs : spaces s₁ <:+ s :=
    (spaces_suffix s₁).trans <| (operator_suffix h₁).trans (spaces_suffix s)
  exact ⟨hread.mono hs, hrest.trans hs⟩

theorem readIn_of_test {op : Operator} (h : test s = some ((op, v), r)) :
    v.ReadIn s ∧ r <:+ s := by
  unfold test at h
  rw [Option.orElse_eq_orElse, Option.orElse_eq_or, Option.or_eq_some_iff] at h
  rcases h with h | ⟨-, h⟩
  · obtain ⟨⟨op', s₁⟩, hexists, heq⟩ := Option.map_eq_some_iff.mp h
    obtain ⟨⟨-, rfl⟩, rfl⟩ := (Prod.mk.inj heq).imp_left Prod.mk.inj
    exact ⟨.unwritten, existenceTest_suffix hexists⟩
  · exact readIn_of_comparison h

theorem readIn_of_condition (h : condition s = some (e, r)) : e.ReadIn s ∧ r <:+ s := by
  obtain ⟨⟨f, s₁⟩, hfield, h⟩ := Option.bind_eq_some_iff.mp h
  obtain ⟨⟨⟨op, v⟩, s₂⟩, htest, h⟩ := Option.bind_eq_some_iff.mp h
  obtain ⟨rfl, rfl⟩ := Prod.mk.inj (Option.some.inj h)
  obtain ⟨hread, hrest⟩ := readIn_of_test htest
  have hs := field_suffix hfield
  refine ⟨fun c hc => ?_, hrest.trans hs⟩
  rw [List.mem_singleton.mp hc]
  exact hread.mono hs

/-! ### Chains of conditions -/

/-- One step of `unary`, whatever the levels below leave. -/
theorem readIn_of_unary_succ {fuel : Nat}
    (hlevels : ∀ (l : Level) {s r : List Char} {e : Entry}, l.read fuel s = some (e, r) →
      e.ReadIn s ∧ r <:+ s)
    (h : unary (fuel + 1) s = some (e, r)) : e.ReadIn s ∧ r <:+ s := by
  rw [unary] at h
  simp only [Option.bind_eq_bind, Option.orElse_eq_orElse, Option.orElse_eq_or,
    Option.bind_eq_some_iff, Option.or_eq_some_iff, Prod.exists, Option.some.injEq,
    Prod.mk.injEq] at h
  obtain ⟨s₁, h₁, e', s₂, h₂, rfl, rfl⟩
    | ⟨-, ⟨s₁, h₁, e', s₂, h₂, s₃, h₃, rfl, rfl⟩ | ⟨-, hcondition⟩⟩ := h
  · obtain ⟨hread, hrest⟩ := hlevels .single h₂
    have hs : spaces s₁ <:+ s := (spaces_suffix s₁).trans (keyword_suffix h₁)
    exact ⟨(hread.mono hs).negate, hrest.trans hs⟩
  · obtain ⟨hread, hrest⟩ := hlevels .disjunction h₂
    have hs : spaces s₁ <:+ s := (spaces_suffix s₁).trans (symbol_suffix h₁)
    exact ⟨hread.mono hs,
      (symbol_suffix h₃).trans <| (spaces_suffix s₂).trans <| hrest.trans hs⟩
  · exact readIn_of_condition hcondition

/-- **Conditions come from the text**, at every level: induction on the steps. -/
theorem readIn_of_read (fuel : Nat) :
    (∀ (l : Level) {s r : List Char} {e : Entry}, l.read fuel s = some (e, r) →
      e.ReadIn s ∧ r <:+ s) ∧
    ∀ (kind : Connective) (s : List Char),
      (∀ e ∈ (kind.readFurther fuel s).1, e.ReadIn s) ∧ (kind.readFurther fuel s).2 <:+ s := by
  induction fuel with
  | zero =>
    constructor
    · intro l s r e h
      cases l <;> exact absurd h (by rintro ⟨⟩)
    · intro kind s
      cases kind <;> exact ⟨fun e he => absurd he List.not_mem_nil, List.suffix_rfl⟩
  | succ fuel ih =>
    obtain ⟨hlevels, hfurther⟩ := ih
    -- Both levels of connectives read a first member and then the others, from what is left of the
    -- text.
    have hchain : ∀ (kind : Connective) {s r : List Char} {e : Entry},
        kind.level.read (fuel + 1) s = some (e, r) → e.ReadIn s ∧ r <:+ s := by
      intro kind s r e h
      rw [kind.read_level] at h
      obtain ⟨⟨first, s₁⟩, hfirst, h⟩ := Option.bind_eq_some_iff.mp h
      obtain ⟨rfl, rfl⟩ := Prod.mk.inj (Option.some.inj h)
      obtain ⟨hread, hrest⟩ := hlevels kind.memberLevel hfirst
      obtain ⟨hothers, hend⟩ := hfurther kind s₁
      exact ⟨hread.chain fun e he => (hothers e he).mono hrest, hend.trans hrest⟩
    constructor
    · intro l
      cases l with
      | single => exact fun h => readIn_of_unary_succ hlevels h
      | conjunction => exact hchain .all
      | disjunction => exact hchain .any
    · intro kind s
      rw [kind.readFurther_succ]
      cases hmember : (joint kind.joint.text s).bind (kind.memberLevel.read fuel) with
      | none => exact ⟨fun e he => absurd he List.not_mem_nil, List.suffix_rfl⟩
      | some p =>
        obtain ⟨e, s₂⟩ := p
        obtain ⟨s₁, hjoint, hread⟩ := Option.bind_eq_some_iff.mp hmember
        obtain ⟨he, hrest⟩ := hlevels kind.memberLevel hread
        obtain ⟨hothers, hend⟩ := hfurther kind s₂
        have hs := hrest.trans (joint_suffix hjoint)
        refine ⟨?_, hend.trans hs⟩
        rw [List.forall_mem_cons]
        exact ⟨he.mono (joint_suffix hjoint), fun e' he' => (hothers e' he').mono hs⟩

/-! ### Queries -/

theorem mem_clauses_of_topLevel {c : Clause} (h : c ∈ Entry.allClauses (topLevel e)) :
    c ∈ e.clauses := by
  unfold topLevel at h
  split at h
  · exact h
  · rwa [Entry.allClauses, Entry.allClauses, List.append_nil] at h

theorem target_suffix {find : String} (h : target s = some (find, r)) : r <:+ s := by
  unfold target at h
  simp only [Option.orElse_eq_orElse, Option.orElse_eq_or, Option.or_eq_some_iff,
    Option.map_eq_some_iff, Prod.mk.injEq] at h
  obtain ⟨s₁, hstar, -, rfl⟩ | ⟨-, hquoted | ⟨-, hname⟩⟩ := h
  · exact symbol_suffix hstar
  · exact (quoted_eq_some hquoted).2
  · exact name_suffix hname

theorem header_suffix {find : String} (h : header s = .ok (find, r)) : r <:+ s := by
  unfold header at h
  dsimp only at h
  split at h
  · exact absurd h (by rintro ⟨⟩)
  · next s₁ hfind =>
    obtain ⟨u, -, hs⟩ := wordPart_eq_some_iff.mp hfind
    split at h
    · exact absurd h (by rintro ⟨⟩)
    · split at h
      · exact absurd h (by rintro ⟨⟩)
      · next s₂ hspaces =>
        split at h
        · exact absurd h (by rintro ⟨⟩)
        · next p htarget =>
          obtain rfl := Except.ok.inj h
          exact (target_suffix htarget).trans <| (someSpaces_suffix hspaces).trans <|
            List.IsSuffix.trans ⟨u, hs.symm⟩ (spaces_suffix s)

theorem readIn_of_wherePart (h : wherePart s = some (e, r)) : e.ReadIn s := by
  obtain ⟨s₁, hjoint, horChain⟩ := Option.bind_eq_some_iff.mp h
  have hread := ((readIn_of_read (stepsFor s₁)).1 .disjunction horChain).1
  exact hread.mono (joint_suffix hjoint)

theorem readIn_of_query {q : Query} (h : query s = .ok (q, r)) :
    ∀ c ∈ Entry.allClauses q.conditions, c.value.ReadIn s := by
  cases hheader : header s with
  | error rest =>
    unfold query at h
    rw [hheader] at h
    exact absurd h (by rintro ⟨⟩)
  | ok p =>
    obtain ⟨find, s₁⟩ := p
    have hconditions : q.conditions = ((optional wherePart s₁).1.map topLevel).getD [] := by
      unfold query at h
      rw [hheader] at h
      obtain ⟨rfl, -⟩ := Prod.mk.inj (Except.ok.inj h)
      rfl
    unfold optional at hconditions
    intro c hc
    rw [hconditions] at hc
    cases hwhere : wherePart s₁ with
    | none =>
      rw [hwhere] at hc
      exact absurd hc List.not_mem_nil
    | some p =>
      rw [hwhere] at hc
      exact (readIn_of_wherePart hwhere c (mem_clauses_of_topLevel hc)).mono (header_suffix hheader)

end Language

/-- Blanks at the ends of a text belong to no value. -/
theorem Operand.ReadIn.of_trimList {s : List Char} {v : Operand} (h : v.ReadIn (Text.trimList s)) :
    v.ReadIn s := by
  have hstart : s.dropWhile Text.isBlank <:+ s := List.dropWhile_suffix _
  refine Operand.ReadIn.mono ?_ hstart
  unfold Text.trimList Text.dropBlanksEnd at h
  generalize s.dropWhile Text.isBlank = s at h
  have hsplit : (s.reverse.dropWhile Text.isBlank).reverse
      ++ (s.reverse.takeWhile Text.isBlank).reverse = s := by
    rw [← List.reverse_append, List.takeWhile_append_dropWhile, List.reverse_reverse]
  have hblank : ∀ c ∈ (s.reverse.takeWhile Text.isBlank).reverse, Text.isBlank c = true := by
    intro c hc
    exact List.mem_takeWhile_imp (List.mem_reverse.mp hc)
  generalize (s.reverse.dropWhile Text.isBlank).reverse = kept at h hsplit
  generalize (s.reverse.takeWhile Text.isBlank).reverse = blanks at hsplit hblank
  subst hsplit
  cases h with
  | unwritten => exact .unwritten
  | quoted h => exact .quoted (h.trans (List.prefix_append _ _).isInfix)
  | @bare token rest hne hin hends h =>
    -- The blanks that were cut off end the value just as the end of the text does.
    have hsuffix : token ++ (rest ++ blanks) <:+ kept ++ blanks := by
      obtain ⟨before, rfl⟩ := h
      exact ⟨before, by simp only [List.append_assoc]⟩
    refine .bare hne hin (fun c hc => ?_) hsuffix
    cases rest with
    | nil =>
      have hc := hblank c (List.mem_of_mem_head? hc)
      unfold inValue
      rw [hc]
      rfl
    | cons d rest => exact hends c hc

/-- **Every value comes from the text** of the query. -/
theorem Query.readIn_of_ofText {text : String} {q : Query} (h : Query.ofText text = .ok q) :
    ∀ c ∈ Entry.allClauses q.conditions, c.value.ReadIn text.toList := by
  unfold Query.ofText at h
  split at h
  · exact absurd h (by rintro ⟨⟩)
  · next q' rest hquery =>
    split at h
    · obtain rfl := Except.ok.inj h
      exact fun c hc => (Language.readIn_of_query hquery c hc).of_trimList
    · exact absurd h (by rintro ⟨⟩)

end GraphIndex
