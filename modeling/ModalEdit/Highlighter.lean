import ModalEdit.HighlighterTree
import ModalEdit.Pattern

/-!
# Highlighters

A highlighter gives a face to parts of a text: to the matches of a pattern, or
to whatever the highlighters of a shared group cover.
-/

namespace ModalEdit

/-- A highlighter of a tree. -/
inductive Highlighter where
  /-- Gives `face` to every match of a pattern. -/
  | pattern (pattern : Pattern) (face : String)
  /-- Runs the shared group at a path. -/
  | reference (path : String)
  deriving Repr

end ModalEdit
