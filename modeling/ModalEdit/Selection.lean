import ModalEdit.Coord

/-!
# Selections

A selection is a range of text with a direction: an anchor that stays and a
cursor that moves. It may carry the texts captured by the search that made it.
-/

namespace ModalEdit

/-- A range of text from an anchor to a cursor. -/
structure Selection where
  anchor : Coord
  cursor : Coord
  captures : List String := []
  deriving DecidableEq, Repr, Inhabited

namespace Selection

/-- The empty selection at a position. -/
def point (c : Coord) : Selection := { anchor := c, cursor := c }

/-- The earlier end. -/
def start (s : Selection) : Coord := min s.anchor s.cursor

/-- The later end. -/
def stop (s : Selection) : Coord := max s.anchor s.cursor

/-- Whether nothing is covered. -/
def isPoint (s : Selection) : Bool := s.anchor = s.cursor

/-- Whether the cursor lies before the anchor. -/
def isBackward (s : Selection) : Bool := s.cursor < s.anchor

/-- The same range in the other direction. -/
def flip (s : Selection) : Selection := { s with anchor := s.cursor, cursor := s.anchor }

/-- Moves both ends. -/
def map (f : Coord → Coord) (s : Selection) : Selection :=
  { s with anchor := f s.anchor, cursor := f s.cursor }

/-- Whether the closed ranges share a position, a boundary included. -/
def touches (s t : Selection) : Bool := t.start ≤ s.stop && s.start ≤ t.stop

/-- The span of both; direction and captures are those of `s`. -/
def merge (s t : Selection) : Selection :=
  let first := min s.start t.start
  let last := max s.stop t.stop
  if s.isBackward then { s with anchor := last, cursor := first }
  else { s with anchor := first, cursor := last }

end Selection

end ModalEdit
