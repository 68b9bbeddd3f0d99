/-!
# Classes of characters given by code ranges

A class of characters outside ASCII is data: a list of closed ranges of code points, as Unicode 16
has it. `inRanges` decides membership.
-/

namespace GraphIndex.Text

/-- Whether a code point lies in one of the closed ranges of a table. -/
def inRanges (table : List (Nat × Nat)) (code : Nat) : Bool :=
  table.any fun range => decide (range.1 ≤ code) && decide (code ≤ range.2)

theorem inRanges_iff {table : List (Nat × Nat)} {code : Nat} :
    inRanges table code = true ↔ ∃ range ∈ table, range.1 ≤ code ∧ code ≤ range.2 := by
  simp [inRanges]

end GraphIndex.Text
