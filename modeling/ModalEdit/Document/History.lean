import ModalEdit.Text.Bytes

/-!
# Undo history

The changes of a text, grouped into steps that are undone and redone as one. New
changes are pending until a commit closes their step.
-/

namespace ModalEdit

/-- A change of a text at a byte offset. -/
inductive Change where
  | insert (offset : Nat) (text : List Char)
  | erase (offset : Nat) (text : List Char)
  deriving DecidableEq, Repr

/-- The change that takes a change back. -/
def Change.inverse : Change → Change
  | .insert offset text => .erase offset text
  | .erase offset text => .insert offset text

/-- The text after a change. -/
def Change.applyTo (text : List Char) : Change → List Char
  | .insert offset added =>
    Text.takeBytes text offset ++ added ++ Text.dropBytes text offset
  | .erase offset removed =>
    Text.takeBytes text offset ++ Text.dropBytes text (offset + Text.byteLength removed)

/-- Steps that can be undone and redone. -/
structure History where
  /-- Closed steps, the latest first; so are the changes of a step. -/
  undo : List (List Change) := []
  /-- Undone steps, the one undone last first. -/
  redo : List (List Change) := []
  /-- Changes that belong to no step yet, the latest first. -/
  pending : List Change := []
  deriving DecidableEq, Repr, Inhabited

namespace History

/-- Adds a change; what was undone before can then no longer be redone. -/
def record (h : History) (change : Change) : History :=
  { h with pending := change :: h.pending, redo := [] }

/-- Closes the pending step, unless it is empty. -/
def commit (h : History) : History :=
  if h.pending.isEmpty then h else { h with undo := h.pending :: h.undo, pending := [] }

end History

end ModalEdit
