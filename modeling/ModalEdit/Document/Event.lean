import ModalEdit.SelectionList

/-!
# Edit events

What the listeners of a document are told about an edit, and where coordinates
and selections go because of it.
-/

namespace ModalEdit

/-- An edit of a text. -/
inductive Event where
  /-- Text now occupies `[start, stop)`. -/
  | inserted (start stop : Coord)
  /-- The text that occupied `[start, stop)` is gone. -/
  | erased (start stop : Coord)
  deriving DecidableEq, Repr

/-- Where a coordinate goes. -/
def Event.carry (event : Event) (c : Coord) : Coord :=
  match event with
  | .inserted start stop => c.afterInsert start stop
  | .erased start stop => c.afterErase start stop

/-- Moves selections along with their text; those that come to touch are merged. -/
def SelectionList.carry (l : SelectionList) (event : Event) : SelectionList :=
  l.mapCoords event.carry

end ModalEdit
