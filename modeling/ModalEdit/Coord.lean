/-!
# Coordinates

A position in a text: a line index and a byte offset within that line, both from
zero. Coordinates are ordered line first, the order in which text is read.
`afterInsert` and `afterErase` carry a coordinate through an edit of the text
around it.
-/

namespace ModalEdit

/-- A line index and a byte offset within the line. -/
structure Coord where
  line : Nat
  column : Nat
  deriving DecidableEq, Repr, Inhabited

namespace Coord

/-- The start of every text. -/
def origin : Coord := ⟨0, 0⟩

instance : LT Coord := ⟨fun a b => a.line < b.line ∨ (a.line = b.line ∧ a.column < b.column)⟩

instance : LE Coord := ⟨fun a b => a.line < b.line ∨ (a.line = b.line ∧ a.column ≤ b.column)⟩

theorem lt_def {a b : Coord} :
    a < b ↔ a.line < b.line ∨ (a.line = b.line ∧ a.column < b.column) := Iff.rfl

theorem le_def {a b : Coord} :
    a ≤ b ↔ a.line < b.line ∨ (a.line = b.line ∧ a.column ≤ b.column) := Iff.rfl

instance (a b : Coord) : Decidable (a < b) := decidable_of_iff _ lt_def.symm

instance (a b : Coord) : Decidable (a ≤ b) := decidable_of_iff _ le_def.symm

instance : Min Coord := minOfLe

instance : Max Coord := maxOfLe

theorem not_lt {a b : Coord} : ¬ a < b ↔ b ≤ a := by
  simp only [lt_def, le_def]
  omega

theorem le_total (a b : Coord) : a ≤ b ∨ b ≤ a := by
  simp only [le_def]
  omega

theorem le_trans {a b c : Coord} (hab : a ≤ b) (hbc : b ≤ c) : a ≤ c := by
  simp only [le_def] at *
  omega

/-- Where `c` goes when text is inserted that then occupies `[start, stop)`.

A coordinate at `start` itself moves along with the text that followed it. -/
def afterInsert (c start stop : Coord) : Coord :=
  if c < start then c
  else if c.line = start.line then ⟨stop.line, stop.column + (c.column - start.column)⟩
  else ⟨c.line + (stop.line - start.line), c.column⟩

/-- Where `c` goes when the text that occupied `[start, stop)` is erased.

Coordinates inside the erased range collapse onto `start`. -/
def afterErase (c start stop : Coord) : Coord :=
  if c < start then c
  else if c < stop then start
  else if c.line = stop.line then ⟨start.line, start.column + (c.column - stop.column)⟩
  else ⟨c.line - (stop.line - start.line), c.column⟩

/-- The form shown to users, counted from one. -/
def text (c : Coord) : String := s!"{c.line + 1}.{c.column + 1}"

end Coord

end ModalEdit
