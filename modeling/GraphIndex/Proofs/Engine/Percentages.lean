import GraphIndex.Proofs.Engine.Counts
import GraphIndex.Proofs.Number.Rounding

/-!
# Percentages of tallies

A tally of untruncated groups counts nodes right, and the counts of nodes with one key each add up
to the total (`Aggregation.counts_nodes`). Percentages of such counts add up to one hundred within
half of their number: each is off by a half of one percent, and the errors of arithmetic in doubles
are too small to be seen in a sum of integers (`Counts.addUp_of_isNear`).
-/

namespace GraphIndex

open Binary64

/-! ### Exact shares -/

namespace Tally

/-- A count in percent of the total, computed exactly and rounded to the nearest integer, a half
going up. -/
def share (total count : Int) : Int := (200 * count + total) / (2 * total)

/-- A number is off from the exact percentage by a half, and by a small part of the count at
most. -/
def IsNear (total count p : Int) : Prop :=
  1000 * |2 * total * p - 200 * count| ≤ 1000 * total + count

variable {total count p : Int}

theorem isNear_share (htotal : 0 < total) (hcount : 0 < count) :
    IsNear total count (share total count) := by
  have hle := Int.mul_ediv_self_le (x := 200 * count + total) (k := 2 * total) (by omega)
  have hlt := Int.lt_mul_ediv_self_add (x := 200 * count + total) (k := 2 * total) (by omega)
  have hclose : |2 * total * share total count - 200 * count| ≤ total := by
    unfold share
    rw [abs_le]
    constructor <;> omega
  unfold IsNear
  omega

/-- A percentage lies between zero and one hundred. -/
theorem IsNear.bounds (h : IsNear total count p) (hcount : 0 < count) (hle : count ≤ total) :
    0 ≤ p ∧ p ≤ 100 := by
  unfold IsNear at h
  -- Both bounds are linear, and each rules out the next integer outside.
  have hbounds : -(1000 * total + count) ≤ 1000 * (2 * total * p - 200 * count) ∧
      1000 * (2 * total * p - 200 * count) ≤ 1000 * total + count := by
    have habs := abs_le.mp (le_refl |2 * total * p - 200 * count|)
    constructor <;> omega
  obtain ⟨hlower, hupper⟩ := hbounds
  constructor
  · by_contra hneg
    have hstep : total * p ≤ total * (-1) := by
      apply mul_le_mul_of_nonneg_left <;> omega
    nlinarith
  · by_contra hneg
    have hstep : total * 101 ≤ total * p := by
      apply mul_le_mul_of_nonneg_left <;> omega
    nlinarith

end Tally

/-! ### Shares in doubles -/

namespace Tally

variable {total count : Int}

/-- A double is rounded to one of the integers at most a half away. -/
theorem abs_roundUp_sub_le (x : Binary64) : |(roundUp x : ℚ) - x.magnitude| ≤ 1 / 2 := by
  have hden : (0 : Int) < x.denominator := by exact_mod_cast x.denominator_pos
  -- The floor of a quotient from below and from above, then carried over to ratios.
  have hle := Int.mul_ediv_self_le (x := 2 * x.numerator + x.denominator)
    (k := 2 * x.denominator) (by omega)
  have hlt := Int.lt_mul_ediv_self_add (x := 2 * x.numerator + x.denominator)
    (k := 2 * x.denominator) (by omega)
  have hround : roundUp x
      = (2 * (x.numerator : Int) + x.denominator) / (2 * x.denominator) := rfl
  rw [← hround] at hle hlt
  have hdenPos : (0 : ℚ) < x.denominator := by exact_mod_cast hden
  have hle' : 2 * (x.denominator : ℚ) * roundUp x ≤ 2 * x.numerator + x.denominator := by
    exact_mod_cast hle
  have hlt' : 2 * (x.numerator : ℚ) + x.denominator
      < 2 * x.denominator * roundUp x + 2 * x.denominator := by
    exact_mod_cast hlt
  have hnum : (x.numerator : ℚ) = x.magnitude * x.denominator := by
    rw [magnitude_eq_div]
    field_simp
  rw [hnum] at hle' hlt'
  rw [abs_le]
  constructor
  · by_contra hneg
    nlinarith
  · by_contra hneg
    nlinarith

/-- Quotients of counts and their percentages stay far from the smallest and largest doubles. -/
theorem inRange_of_bounds {v : ℚ} (hlower : 1 / 2 ^ 63 ≤ v) (hupper : v ≤ 100) : InRange v := by
  constructor
  · have hpow : (1 : ℚ) / 2 ^ 63 = 2 ^ (-63 : Int) := by norm_num
    rw [hpow] at hlower
    exact (zpow_le_zpow_right₀ (by norm_num) (by norm_num)).trans hlower
  · have hpow : (100 : ℚ) ≤ 2 ^ (7 : Int) := by norm_num
    have hle : (2 : ℚ) ^ (7 : Int) ≤ 2 ^ (1021 : Int) :=
      zpow_le_zpow_right₀ (by norm_num) (by norm_num)
    exact (hupper.trans hpow).trans hle

/-- The quotient of a count and a total, made a percentage in doubles. -/
theorem near_percent (hcount : 0 < count) (hle : count ≤ total) (hlarge : total < 2 ^ 63) :
    Near (.ofInt count / .ofInt total * .ofInt 100) ((count : ℚ) / total * 100) (16 * unit) := by
  have hunit : (0 : ℚ) < unit ∧ unit ≤ 1 / 1000 := by
    constructor <;> norm_num [unit]
  have hcountPos : (0 : ℚ) < count := by exact_mod_cast hcount
  have htotalPos : (0 : ℚ) < total := by exact_mod_cast (by omega : 0 < total)
  have hquotient : 1 / 2 ^ 63 ≤ (count : ℚ) / total ∧ (count : ℚ) / total ≤ 1 := by
    have hone : (1 : ℚ) ≤ count := by exact_mod_cast hcount
    have hle' : (count : ℚ) ≤ total := by exact_mod_cast hle
    have hlarge' : (total : ℚ) < 2 ^ 63 := by exact_mod_cast hlarge
    constructor
    · gcongr
    · exact div_le_one_of_le₀ hle' htotalPos.le
  obtain ⟨hlower, hupper⟩ := hquotient
  have hquotientPos : (0 : ℚ) < count / total := div_pos hcountPos htotalPos
  -- Three roundings before the quotient is known, and two more for the product.
  have hdiv : Near (.ofInt count / .ofInt total) ((count : ℚ) / total) (6 * unit) := by
    have hrange : InRange ((count : ℚ) / total) := inRange_of_bounds hlower (by linarith)
    have hnear := (near_ofInt hcount (by omega)).div (near_ofInt (by omega) hlarge) hcountPos
      htotalPos (by linarith) (by linarith) hrange
    have herror : 2 * (unit + unit) + 2 * unit = 6 * unit := by ring
    rw [herror] at hnear
    exact hnear
  have hrange : InRange ((count : ℚ) / total * 100) :=
    inRange_of_bounds (by linarith) (by linarith)
  have hhundred : Near (.ofInt 100) 100 unit := near_ofInt (i := 100) (by norm_num) (by norm_num)
  have hnear := hdiv.mul hhundred hquotientPos (by norm_num) (by linarith) (by linarith)
    (by linarith) (by linarith) hrange
  have herror : 2 * (6 * unit + unit) + 2 * unit = 16 * unit := by ring
  rw [herror] at hnear
  exact hnear

/-- **A percentage in doubles** is off by a half and a small part at most. -/
theorem isNear_percentage (hlarge : total < 2 ^ 63) (hcount : 0 < count) (hle : count ≤ total) :
    IsNear total count (percentage total count) := by
  have hpercentage : percentage total count
      = roundUp (.ofInt count / .ofInt total * .ofInt 100) := if_pos (by omega)
  have hclose := (near_percent hcount hle hlarge).close
  have hround := abs_roundUp_sub_le (.ofInt count / .ofInt total * .ofInt 100)
  rw [← hpercentage] at hround
  set p := percentage total count
  set v : ℚ := (count : ℚ) / total * 100 with hv
  have htotalPos : (0 : ℚ) < total := by exact_mod_cast (by omega : 0 < total)
  have hcountPos : (0 : ℚ) < count := by exact_mod_cast hcount
  -- The last rounding is off by a half at most, those before it by a small part of the value.
  have herror : |(p : ℚ) - v| ≤ 1 / 2 + 16 * unit * v :=
    (abs_sub_le _ _ _).trans (add_le_add hround hclose)
  have hvalue : 2 * (total : ℚ) * v = 200 * count := by
    rw [hv]
    field_simp
    ring
  have hscaled : |2 * (total : ℚ) * p - 200 * count| = 2 * total * |p - v| := by
    have hfactor : 2 * (total : ℚ) * p - 200 * count = 2 * total * (p - v) := by
      rw [mul_sub, hvalue]
    rw [hfactor, abs_mul, abs_of_pos (by linarith)]
  have hsmall : 3200000 * unit ≤ 1 := by norm_num [unit]
  have hgoal : 1000 * |2 * (total : ℚ) * p - 200 * count| ≤ 1000 * total + count := by
    rw [hscaled]
    calc 1000 * (2 * (total : ℚ) * |p - v|)
        ≤ 1000 * (2 * total * (1 / 2 + 16 * unit * v)) := by gcongr
      _ = 1000 * total + 16000 * unit * (2 * total * v) := by ring
      _ = 1000 * total + 3200000 * unit * count := by rw [hvalue]; ring
      _ ≤ 1000 * total + count := by nlinarith
  exact_mod_cast hgoal

end Tally

/-! ### Sums of percentages -/

namespace Counts

/-- Percentages between zero and one hundred that add up to one hundred within half of their
number. -/
def AddUp (ps : Counts) : Prop :=
  (∀ p ∈ ps, 0 ≤ p.2 ∧ p.2 ≤ 100) ∧ |2 * Counts.sum ps - 200| ≤ ps.length

theorem sum_cons (entry : String × Int) (cs : Counts) :
    Counts.sum (entry :: cs) = entry.2 + Counts.sum cs := rfl

/-- The errors of percentages add up. -/
theorem abs_sum_sub_le {total : Int} {f : Int → Int} {cs : Counts}
    (hnear : ∀ entry ∈ cs, Tally.IsNear total entry.2 (f entry.2)) :
    1000 * |2 * total * Counts.sum (cs.map fun (key, n) => (key, f n)) - 200 * Counts.sum cs|
      ≤ 1000 * total * cs.length + Counts.sum cs := by
  induction cs with
  | nil => simp [Counts.sum]
  | cons entry cs ih =>
    rw [List.forall_mem_cons] at hnear
    have hrest := ih hnear.2
    have hfirst : 1000 * |2 * total * f entry.2 - 200 * entry.2| ≤ 1000 * total + entry.2 := hnear.1
    -- The errors of the entries add up.
    have hsplit : 2 * total * (f entry.2 + Counts.sum (cs.map fun (key, n) => (key, f n)))
        - 200 * (entry.2 + Counts.sum cs)
          = (2 * total * f entry.2 - 200 * entry.2)
            + (2 * total * Counts.sum (cs.map fun (key, n) => (key, f n))
                - 200 * Counts.sum cs) := by
      ring
    have habs := abs_add_le (2 * total * f entry.2 - 200 * entry.2)
      (2 * total * Counts.sum (cs.map fun (key, n) => (key, f n)) - 200 * Counts.sum cs)
    rw [List.map_cons, sum_cons, sum_cons]
    show 1000 * |2 * total * (f entry.2 + _) - _| ≤ _
    rw [hsplit, List.length_cons]
    push_cast
    linarith

/-- **Percentages add up** if the counts do, however each of them is rounded to a near number. -/
theorem addUp_of_isNear {total : Int} (htotal : 0 < total) {f : Int → Int} {cs : Counts}
    (hcounts : ∀ entry ∈ cs, 0 < entry.2 ∧ entry.2 ≤ total) (hsum : Counts.sum cs = total)
    (hnear : ∀ n, 0 < n → n ≤ total → Tally.IsNear total n (f n)) :
    AddUp (cs.map fun (key, n) => (key, f n)) := by
  constructor
  · intro p hp
    obtain ⟨entry, hentry, rfl⟩ := List.mem_map.mp hp
    obtain ⟨hpos, hle⟩ := hcounts entry hentry
    exact (hnear entry.2 hpos hle).bounds hpos hle
  · have herror := abs_sum_sub_le fun entry hentry =>
      hnear entry.2 (hcounts entry hentry).1 (hcounts entry hentry).2
    set sum := Counts.sum (cs.map fun (key, n) => (key, f n))
    rw [hsum] at herror
    rw [List.length_map]
    -- The error is a multiple of the total, so that the small part does not count.
    have hfactor : 2 * total * sum - 200 * total = total * (2 * sum - 200) := by ring
    rw [hfactor, abs_mul, abs_of_pos htotal] at herror
    by_contra hlt
    have hstep : total * (cs.length + 1) ≤ total * |2 * sum - 200| := by
      apply mul_le_mul_of_nonneg_left <;> omega
    nlinarith

end Counts

/-! ### Tallies that count nodes -/

namespace Tally

/-- A tally counts nodes by their keys: each key once and with the number of nodes that have it. -/
structure CountsNodes (tally : Tally) (nodes : List NodeRow) (keys : NodeRow → List (List String)) :
    Prop where
  total : tally.total = nodes.length
  groups : tally.groups.CountsNodes nodes keys
  count_le : ∀ entry ∈ tally.groups.entries, entry.2 ≤ tally.total
  counted : ∀ r ∈ nodes, ∃ entry ∈ tally.groups.entries, entry.1 ∈ keys r
  total_le_sum : tally.total ≤ (tally.groups.entries.map (·.2)).sum
  sum_eq_iff : (tally.groups.entries.map (·.2)).sum = tally.total ↔
    ∀ r ∈ nodes, (keys r).length = 1

/-- The percentages of a tally along one dimension add up, computed exactly as well as in doubles,
where the total is of a size that occurs. -/
def PercentagesAddUp (tally : Tally) : Prop :=
  ∃ counts, tally.groups = .flat counts ∧
    tally.percentages = some (percentagesOf tally.total counts) ∧
    Counts.AddUp (counts.map fun (key, n) => (key, share tally.total n)) ∧
    (tally.total < 2 ^ 63 → Counts.AddUp (percentagesOf tally.total counts))

variable {tally : Tally} {nodes : List NodeRow} {keys : NodeRow → List (List String)}

theorem countsNodes_of_groups (htotal : tally.total = nodes.length)
    (hgroups : tally.groups.CountsNodes nodes keys) (hnodup : ∀ r ∈ nodes, (keys r).Nodup)
    (hne : ∀ r ∈ nodes, keys r ≠ []) : tally.CountsNodes nodes keys where
  total := htotal
  groups := hgroups
  count_le := by
    intro entry hentry
    rw [htotal]
    exact (hgroups.le_length entry hentry).2
  counted := by
    intro r hr
    obtain ⟨ks, hks⟩ := List.exists_mem_of_ne_nil _ (hne r hr)
    obtain ⟨entry, hentry, rfl⟩ := List.mem_map.mp (hgroups.mem_keys hr hks)
    exact ⟨entry, hentry, hks⟩
  total_le_sum := by
    rw [htotal, hgroups.sum_eq hnodup]
    exact_mod_cast (length_le_sum hne).1
  sum_eq_iff := by
    rw [htotal, hgroups.sum_eq hnodup, ← (length_le_sum hne).2]
    exact Nat.cast_inj

theorem sum_eq_sum_entries (counts : Counts) :
    Counts.sum counts = ((Groups.flat counts).entries.map (·.2)).sum := by
  show (counts.map (·.2)).foldr (· + ·) 0 = ((counts.map _).map _).sum
  rw [List.map_map]
  rfl

/-- Where every node has one key, percentages add up. -/
theorem CountsNodes.percentagesAddUp {counts : Counts} (h : tally.CountsNodes nodes keys)
    (hflat : tally.groups = .flat counts)
    (hpercentages : tally.percentages = some (percentagesOf tally.total counts))
    (htotal : 0 < tally.total) (hone : ∀ r ∈ nodes, (keys r).length = 1) :
    tally.PercentagesAddUp := by
  -- With one key for every node the counts add up to the total.
  have hsum : Counts.sum counts = tally.total := by
    rw [sum_eq_sum_entries, ← hflat]
    exact h.sum_eq_iff.mpr hone
  have hcounts : ∀ entry ∈ counts, 0 < entry.2 ∧ entry.2 ≤ tally.total := by
    intro entry hentry
    have hmem : ([entry.1], entry.2) ∈ tally.groups.entries := by
      rw [hflat]
      exact List.mem_map.mpr ⟨entry, hentry, rfl⟩
    exact ⟨(h.groups.le_length _ hmem).1, h.count_le _ hmem⟩
  refine ⟨counts, hflat, hpercentages, ?_, fun hlarge => ?_⟩
  · apply Counts.addUp_of_isNear htotal hcounts hsum
    exact fun n hpos _ => isNear_share htotal hpos
  · apply Counts.addUp_of_isNear htotal hcounts hsum
    exact fun n hpos hle => isNear_percentage hlarge hpos hle

end Tally

/-! ### Untruncated aggregations -/

namespace Aggregation

variable {db : Database} {store : Store} {a : Aggregation} {now : Int} {tally : Tally}

/-- **Counts are right** whatever the joins multiply. A tally of which nothing is cut off shows each
combination of keys that some selected node has once, and with the number of the selected nodes that
have it; no count is above the total, no selected node is left out, and the counts add up to the
total or more, exactly to the total if and only if every selected node has one combination only. In
that case the percentages along one dimension add up too. -/
theorem counts_nodes (hstore : db.store = .ok store) (hkeyed : store.Keyed)
    (hrun : a.run db now = .ok tally) (hshown : a.ShowsAll tally) :
    ∃ es, Entry.resolveAll now a.conditions = .ok es ∧
      tally.CountsNodes (store.selected a.find es)
        (fun r => Dimension.keyLists store r a.dimensions) ∧
      (a.dimensions.length = 1 → a.showPercent = true → 0 < tally.total →
        (∀ r ∈ store.selected a.find es,
          (Dimension.keyLists store r a.dimensions).length = 1) → tally.PercentagesAddUp) := by
  obtain ⟨es, hes, htotal, hgroups⟩ := exists_counts hstore hkeyed hrun hshown
  have hcounts := Tally.countsNodes_of_groups htotal hgroups
    (fun r _ => Dimension.nodup_keyLists a.dimensions)
    (fun r _ => Dimension.keyLists_ne_nil a.dimensions)
  refine ⟨es, hes, hcounts, fun hone hpercent hpos hsingle => ?_⟩
  obtain ⟨-, _, _, _, -, -, -, rfl⟩ := exists_answer hstore hrun
  obtain ⟨counts, hflat, hpercentages⟩ := Tally.flat_ofRows hone hpercent
  exact hcounts.percentagesAddUp hflat hpercentages hpos hsingle

/-- All nodes by the name of their parent, with percentages. -/
def parentAggregation : Aggregation :=
  { Aggregation.along anyNode [.field "parent.name"] with showPercent := true }

/-- One of the two nodes of the sample has a parent. -/
theorem counts_nodes_sample : ∃ tally, parentAggregation.run ⟨some sampleStore⟩ 0 = .ok tally ∧
    (["Plan"], 1) ∈ tally.groups.entries ∧ ([noneKey], 1) ∈ tally.groups.entries ∧
    tally.PercentagesAddUp := by
  have hstore : (⟨some sampleStore⟩ : Database).store = .ok sampleStore := rfl
  obtain ⟨tally, hrun⟩ : ∃ tally, parentAggregation.run ⟨some sampleStore⟩ 0 = .ok tally :=
    ⟨_, rfl⟩
  have hshown : parentAggregation.ShowsAll tally := by
    refine ⟨?_, fun h => absurd h (by decide)⟩
    obtain ⟨-, es, s, _, hes, hs, -, rfl⟩ := exists_answer hstore hrun
    obtain ⟨s', hs', hgroups⟩ : ∃ s', parentAggregation.statement = .ok s' ∧
        (s'.groups sampleStore).length = 2 := ⟨_, rfl, by decide⟩
    obtain rfl := Except.ok.inj hes
    obtain rfl := Except.ok.inj (hs.symm.trans hs')
    have hle := GroupStatement.length_answer_le sampleStore s
    apply Tally.truncatedAt_ofRows
    show _ ≤ (100 : Int)
    omega
  obtain ⟨es, hes, hcounts, hpercentages⟩ :=
    counts_nodes hstore keyed_sampleStore hrun hshown
  obtain rfl := Except.ok.inj hes
  refine ⟨tally, hrun, ?_, ?_, hpercentages rfl rfl ?_ (by decide)⟩
  · exact (hcounts.groups.mem_iff _ _).mpr ⟨by decide, by decide⟩
  · exact (hcounts.groups.mem_iff _ _).mpr ⟨by decide, by decide⟩
  · rw [hcounts.total]
    decide

end Aggregation

end GraphIndex
