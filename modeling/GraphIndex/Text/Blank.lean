/-!
# Blanks

The characters that count as white space, and texts without them at either end. Main statements:
`trim_eq_empty_iff` says when nothing is left.
-/

namespace GraphIndex.Text

/-- Whether a character is white space, in any script. -/
def isBlank (c : Char) : Bool :=
  let n := c.toNat
  (9 ≤ n && n ≤ 13) || n == 0x20 || n == 0x85 || n == 0xa0 || n == 0x1680
    || (0x2000 ≤ n && n ≤ 0x200a) || n == 0x2028 || n == 0x2029 || n == 0x202f || n == 0x205f
    || n == 0x3000

/-- A list of characters without the blanks at its end. -/
def dropBlanksEnd (s : List Char) : List Char :=
  (s.reverse.dropWhile isBlank).reverse

/-- A list of characters without the blanks at either end. -/
def trimList (s : List Char) : List Char :=
  dropBlanksEnd (s.dropWhile isBlank)

/-- A text without the blanks at either end. -/
def trim (s : String) : String := .ofList (trimList s.toList)

/-- Whether a text holds nothing but blanks. -/
def isBlankText (s : String) : Bool := s.toList.all isBlank

theorem dropWhile_isBlank_eq_nil_iff {s : List Char} :
    s.dropWhile isBlank = [] ↔ ∀ c ∈ s, isBlank c = true := by
  induction s with
  | nil => simp
  | cons c r ih => by_cases h : isBlank c = true <;> simp [h, ih]

theorem trimList_eq_nil_iff {s : List Char} : trimList s = [] ↔ ∀ c ∈ s, isBlank c = true := by
  rw [trimList, dropBlanksEnd, List.reverse_eq_nil_iff, dropWhile_isBlank_eq_nil_iff]
  constructor
  · intro h c hc
    rw [← List.takeWhile_append_dropWhile (p := isBlank) (l := s), List.mem_append] at hc
    rcases hc with hc | hc
    · exact List.all_eq_true.1 (List.all_takeWhile (l := s) (p := isBlank)) c hc
    · exact h c (List.mem_reverse.2 hc)
  · intro h c hc
    exact h c ((List.dropWhile_sublist isBlank).subset (List.mem_reverse.1 hc))

theorem trim_eq_empty_iff {s : String} : trim s = "" ↔ isBlankText s = true := by
  rw [trim, isBlankText, List.all_eq_true, ← trimList_eq_nil_iff, ← String.toList_inj,
    String.toList_ofList]
  simp

theorem dropBlanksEnd_cons {c : Char} (h : isBlank c = false) (s : List Char) :
    dropBlanksEnd (c :: s) = c :: dropBlanksEnd s := by
  have hlast : [c].dropWhile isBlank = [c] := List.dropWhile_cons_of_neg (by rw [h]; decide)
  unfold dropBlanksEnd
  rw [List.reverse_cons, List.dropWhile_append, hlast]
  cases hrest : s.reverse.dropWhile isBlank with
  | nil => rfl
  | cons d r => simp

/-- A text that begins with no blank loses blanks at its end only. -/
theorem trimList_cons {c : Char} (h : isBlank c = false) (s : List Char) :
    trimList (c :: s) = c :: dropBlanksEnd s := by
  rw [trimList, List.dropWhile_cons_of_neg (by rw [h]; decide), dropBlanksEnd_cons h]

end GraphIndex.Text
