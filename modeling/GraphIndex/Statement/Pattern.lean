/-!
# Patterns of texts

A pattern is a list of items: a character, any one character, a class of characters, or any run of
them. `Pattern.accepts` says whether a whole text fits. Two written forms are in use: one with `%`,
`_` and an escape, in which the letter case of ASCII letters does not count (`Pattern.ofLike?`), and
one with `*`, `?` and classes in brackets (`Pattern.globText`).
-/

namespace GraphIndex

/-- A member of a class of characters. -/
inductive ClassItem where
  | char (c : Char)
  | range (first last : Char)
  deriving DecidableEq, Repr

/-- An item of a pattern. -/
inductive PatternItem where
  | char (c : Char)
  | oneOf (items : List ClassItem)
  | noneOf (items : List ClassItem)
  | anyOne
  | anyRun
  deriving DecidableEq, Repr

namespace ClassItem

def contains (c : Char) : ClassItem → Bool
  | char d => c = d
  | range first last => first ≤ c ∧ c ≤ last

/-- The written form of a member of a class. -/
def chars : ClassItem → List Char
  | char d => [d]
  | range first last => [first, '-', last]

end ClassItem

/-- A text and all its ends, the longest first. -/
def suffixes {α : Type} : List α → List (List α)
  | [] => [[]]
  | c :: s => (c :: s) :: suffixes s

/-- A pattern of texts. -/
abbrev Pattern := List PatternItem

namespace Pattern

/-- Whether an item that stands for one character fits it, characters being compared by `same`. -/
def fits (same : Char → Char → Bool) (c : Char) : PatternItem → Bool
  | .char d => same d c
  | .oneOf items => items.any (·.contains c)
  | .noneOf items => !items.any (·.contains c)
  | .anyOne => true
  | .anyRun => false

/-- Whether a whole text fits a pattern. -/
def accepts (same : Char → Char → Bool) : Pattern → List Char → Bool
  | [], s => s.isEmpty
  | .anyRun :: p, s => (suffixes s).any (accepts same p)
  | item :: p, s =>
    match s with
    | [] => false
    | c :: rest => fits same c item && accepts same p rest

/-- Equality up to the case of ASCII letters. -/
def sameLetter (c d : Char) : Bool := c.toLower == d.toLower

/-! ### Patterns with an escape -/

/-- The character that makes the next one stand for itself. -/
def escape : Char := '\\'

/-- Reads a pattern; `none` if it ends in an escape. -/
def ofLike? : List Char → Option Pattern
  | [] => some []
  | c :: rest =>
    if c = escape then
      match rest with
      | [] => none
      | d :: rest => (ofLike? rest).map (.char d :: ·)
    else if c = '%' then (ofLike? rest).map (.anyRun :: ·)
    else if c = '_' then (ofLike? rest).map (.anyOne :: ·)
    else (ofLike? rest).map (.char c :: ·)

/-- Whether a text fits a written pattern; the case of ASCII letters does not count. -/
def like (pattern text : List Char) : Bool :=
  match ofLike? pattern with
  | some p => accepts sameLetter p text
  | none => false

/-- A character with an escape where it would be read as a wildcard. -/
def escaped (c : Char) : List Char :=
  if c = '%' ∨ c = '_' ∨ c = escape then [escape, c] else [c]

/-- The written pattern of the texts in which a text occurs. -/
def containing (s : List Char) : List Char := '%' :: (s.flatMap escaped ++ ['%'])

/-! ### Patterns with classes -/

/-- Whether a text fits a pattern; letter case counts. -/
def glob (p : Pattern) (text : List Char) : Bool := accepts (· == ·) p text

/-- The written form of an item. -/
def globChars : PatternItem → List Char
  | .char c => [c]
  | .oneOf items => '[' :: (items.flatMap ClassItem.chars ++ [']'])
  | .noneOf items => '[' :: '^' :: (items.flatMap ClassItem.chars ++ [']'])
  | .anyOne => ['?']
  | .anyRun => ['*']

/-- The written form of a pattern with classes. -/
def globText (p : Pattern) : List Char := p.flatMap globChars

end Pattern

end GraphIndex
