import ModalEdit.Document.MultiEdit

/-!
# Contexts

A context is what commands work on: a document with a tracker of selections on
it, an input mode, and possibly a window. Editions nest; when the outermost one
ends, what was changed becomes one undo step.
-/

namespace ModalEdit

/-- A view of a document. -/
structure Window where
  scopes : ScopeTables := {}
  /-- The timestamp of the document when it was last drawn. -/
  timestamp : Option Nat := none

namespace Window

/-- Whether a document with that timestamp has to be drawn. -/
def needsRedraw (w : Window) (timestamp : Nat) : Bool := w.timestamp ≠ some timestamp

end Window

/-- What commands work on. -/
structure Context where
  name : String
  /-- The number of the document in the editor's store. -/
  document : Nat
  /-- The tracker of the document that holds the selections. -/
  tracker : Nat
  window : Option Window := none
  /-- Number of editions begun and not ended. -/
  editionLevel : Nat := 0
  /-- Whether the end of the outermost edition closes the undo step. -/
  undoEnabled : Bool := true
  mode : KeymapMode := .normal
  /-- On which side of the selections typed text goes. -/
  insertPosition : InsertPosition := .before

namespace Context

/-- Whether an edition is open. -/
def isEditing (c : Context) : Bool := 0 < c.editionLevel

/-- The context with its window to be drawn again. -/
def forgetDrawing (c : Context) : Context :=
  { c with window := c.window.map fun w => { w with timestamp := none } }

end Context

end ModalEdit
