/-!
# Positions

A position names a place in a text by the index of its line and the column of a character in that
line, both counted from zero. Positions are ordered as they are met when the text is read.
-/

namespace LineLexer

/-- The index of a line and the column of a character in it. -/
structure Position where
  line : Nat := 0
  column : Nat := 0
  deriving DecidableEq, Repr, Inhabited

namespace Position

/-- The order of positions: by line, and in one line by column. -/
def order (left right : Position) : Ordering :=
  (compare left.line right.line).then (compare left.column right.column)

/-- Positions compare by line and then by column. -/
instance : Ord Position := ⟨order⟩

/-- A position comes before another one. -/
instance : LT Position := ltOfOrd

/-- A position does not come after another one. -/
instance : LE Position := leOfOrd

/-- Positions in reading order; equal positions keep their places. -/
def sort (positions : List Position) : List Position :=
  positions.mergeSort fun left right => (order left right).isLE

/-- The text of a position for readers. -/
def render (p : Position) : String :=
  s!"line: {p.line}, column: {p.column}"

/-- A position shown with the names of its parts. -/
def inspect (p : Position) : String :=
  "Position \x7b line: " ++ toString p.line ++ ", column: " ++ toString p.column ++ " \x7d"

/-- One position comes before another if its line does, or its column in the same line. -/
theorem lt_iff {left right : Position} :
    left < right ↔
      left.line < right.line ∨ left.line = right.line ∧ left.column < right.column := by
  show (compare left.line right.line).then (compare left.column right.column) = .lt ↔ _
  rw [Ordering.then_eq_lt, Nat.compare_eq_lt, Nat.compare_eq_eq, Nat.compare_eq_lt]

end Position

end LineLexer
