import GraphIndex.Statement.Text

/-!
# Limits of statements

The store refuses a statement that is too large: with too many tables side by side or too many bound
values, or with conditions that make too high a tree or need too many entries of the reader's stack.
`Statement.IsPrepared` says that a statement is within these limits. A pattern that is too long
makes the statement fail that compares a text with it; `Statement.IsAccepted` says that there is
none. Limits of memory, such as that of the length of a text, are left out.

Trees and the stack are measured as the reader builds them: operands of one connective are put
together from the left, two at a time, and an entry of the stack is taken for each word or part
that waits for what follows it. The keys of groups and the sort keys of pages are never large, and
neither are the conditions of joins.
-/

namespace GraphIndex

/-- How many tables one statement can set side by side. -/
def tableLimit : Nat := 64

/-- How many values one statement can bind at most. -/
def bindingLimit : Nat := 32766

/-- How high a tree of conditions can be, the trees around it added if it is nested. -/
def heightLimit : Nat := 1000

/-- How many entries the stack of the reader has. -/
def stackLimit : Nat := 100

/-- How many bytes a pattern with an escape can have. -/
def patternLimit : Nat := 50000

/-! ### Heights -/

/-- The height of a tree whose operands are put together from the left. -/
def chainHeight : List Nat → Nat
  | [] => 0
  | h :: hs => hs.foldl (fun before h => max before h + 1) h

/-- The height of the tree of an expression. -/
def Expr.height : Expr → Nat
  -- The alias and the column are operands of the point.
  | column _ _ => 2
  | bound _ | quoted _ | number _ => 1
  | cast e _ | orText e _ | date _ e => e.height + 1
  | plus e d | divide e d | concat e d => max e.height d.height + 1
  | parens e => e.height

namespace Condition

mutual

/-- The height of the tree of a condition. -/
def height : Condition → Nat
  | compare left _ right => max left.height right.height + 1
  | like e _ | isNull e | isNotNull e => e.height + 1
  | glob fits e _ => e.height + if fits then 1 else 2
  | .exists holds _ conditions =>
    chainHeight (heights conditions) + if holds then 1 else 2
  | group _ members => chainHeight (heights members)
  | not c => c.height + 1

/-- The heights of every condition of a list. -/
def heights : List Condition → List Nat
  | [] => []
  | c :: rest => c.height :: heights rest

end

mutual

/-- How high the trees of nested queries are, each added to those that it is nested in. -/
def nestedHeight : Condition → Nat
  | .exists _ _ conditions => chainHeight (heights conditions) + nestedHeights conditions
  | group _ members => nestedHeights members
  | not c => c.nestedHeight
  | _ => 0

/-- The greatest of these heights in a list of conditions. -/
def nestedHeights : List Condition → Nat
  | [] => 0
  | c :: rest => max c.nestedHeight (nestedHeights rest)

end

end Condition

/-! ### Entries of the stack -/

/-- The entries for operands of one connective: the operands before and the connective wait for the
last one. -/
def chainEntries : List Nat → Nat
  | [] => 0
  | n :: ns => ns.foldl (fun most n => max most (n + 2)) n

/-- The most entries that are taken while an expression is read. -/
def Expr.entries : Expr → Nat
  | column _ _ => 3
  | bound _ | quoted _ | number _ => 1
  | cast e _ => max (e.entries + 2) 6
  | orText e _ => max (e.entries + 3) 6
  | date _ e => e.entries + 5
  | plus e d | divide e d | concat e d => max e.entries (d.entries + 2)
  | parens e => max (e.entries + 1) 3

namespace Condition

mutual

/-- The most entries that are taken while a condition is read. -/
def entries : Condition → Nat
  | compare left _ right => max left.entries (right.entries + 2)
  | like e _ => max e.entries 5
  | glob _ e _ | isNull e => max e.entries 3
  | isNotNull e => max e.entries 4
  -- The table of a nested query takes eleven entries, and seven wait for its conditions.
  | .exists holds _ conditions =>
    max 11 (chainEntries (listEntries conditions) + 7) + if holds then 0 else 1
  | group _ members => max (chainEntries (listEntries members) + 1) 3
  | not c => max (c.entries + 2) 4

/-- The entries for every condition of a list. -/
def listEntries : List Condition → List Nat
  | [] => []
  | c :: rest => c.entries :: listEntries rest

end

/-! ### Patterns -/

mutual

/-- Whether no pattern with an escape is too long. -/
def hasShortPatterns : Condition → Bool
  | like _ pattern => decide (pattern.utf8ByteSize ≤ patternLimit)
  | .exists _ _ conditions => haveShortPatterns conditions
  | group _ members => haveShortPatterns members
  | not c => c.hasShortPatterns
  | _ => true

/-- Whether no pattern of a list of conditions is too long. -/
def haveShortPatterns : List Condition → Bool
  | [] => true
  | c :: rest => c.hasShortPatterns && haveShortPatterns rest

end

end Condition

/-! ### Statements -/

namespace Selection

/-- The heights of what must hold of the rows: of the condition, if there is one, and of the
condition of every join. -/
def heights (s : Selection) : List Nat :=
  (if s.conditions.isEmpty then [] else [chainHeight (Condition.heights s.conditions)])
    ++ s.joins.joins.map fun j => chainHeight (Condition.heights j.on)

/-- The height of all that must hold of the rows, nested queries added. -/
def height (s : Selection) : Nat := chainHeight s.heights + Condition.nestedHeights s.conditions

/-- The entries of the stack: six wait for the condition. -/
def entries (s : Selection) : Nat := chainEntries (Condition.listEntries s.conditions) + 6

end Selection

/-- A statement of one of the three kinds. -/
inductive Statement where
  | page (s : PageStatement)
  | groups (s : GroupStatement)
  /-- The number of nodes. -/
  | count (s : Selection)
  deriving Repr

namespace Statement

/-- The rows that a statement works on. -/
def selection : Statement → Selection
  | page s => s.selection
  | groups s => s.selection
  | count s => s

/-- The values bound in it. -/
def values : Statement → List Datum
  | page s => s.values
  | groups s => s.values
  | count s => s.countValues

/-- A statement is within the limits that are looked at before it is carried out. -/
structure IsPrepared (s : Statement) : Prop where
  tables : s.selection.joins.size + 1 ≤ tableLimit
  values : s.values.length ≤ bindingLimit
  height : s.selection.height ≤ heightLimit
  entries : s.selection.entries ≤ stackLimit

theorem isPrepared_iff (s : Statement) : s.IsPrepared ↔
    (s.selection.joins.size + 1 ≤ tableLimit ∧ s.values.length ≤ bindingLimit) ∧
      s.selection.height ≤ heightLimit ∧ s.selection.entries ≤ stackLimit :=
  ⟨fun h => ⟨⟨h.tables, h.values⟩, h.height, h.entries⟩,
    fun h => ⟨h.1.1, h.1.2, h.2.1, h.2.2⟩⟩

instance (s : Statement) : Decidable s.IsPrepared := decidable_of_iff _ s.isPrepared_iff.symm

/-- A statement is within all limits, so that it is carried out. A pattern that is too long counts
here whether or not a row is there to be compared with it. -/
structure IsAccepted (s : Statement) : Prop extends s.IsPrepared where
  patterns : Condition.haveShortPatterns s.selection.conditions = true

theorem isAccepted_iff (s : Statement) : s.IsAccepted ↔
    s.IsPrepared ∧ Condition.haveShortPatterns s.selection.conditions = true :=
  ⟨fun h => ⟨h.toIsPrepared, h.patterns⟩, fun h => ⟨h.1, h.2⟩⟩

instance (s : Statement) : Decidable s.IsAccepted := decidable_of_iff _ s.isAccepted_iff.symm

end Statement

end GraphIndex
