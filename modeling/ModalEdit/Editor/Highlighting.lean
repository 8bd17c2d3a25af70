import ModalEdit.Editor.Scene

/-!
# Highlighting

The spans of a document that have a face. A reference stands for the shared
group that it names; references inside that group are followed in turn, up to a
limit, so that groups which refer to each other do no harm.
-/

namespace ModalEdit

/-- The text `[start, stop)` with its face. -/
structure HighlightSpan where
  start : Coord
  stop : Coord
  face : String
  deriving DecidableEq, Repr

namespace Highlighter

/-- The number of bytes of the first `n` characters. -/
def byteOffset (text : List Char) (n : Nat) : Nat := Text.byteLength (text.take n)

/-- The spans of the matches of a pattern that are not empty. -/
def matchSpans (text : List Char) (pattern : Pattern) (face : String) : List HighlightSpan :=
  ((pattern.tree.findAll text.toArray).filter fun m => m.1 ≠ m.2).map fun m =>
    ⟨Text.coordAt text (byteOffset text m.1), Text.coordAt text (byteOffset text m.2), face⟩

/-- The spans of a highlighter, where references may nest `depth` deep. -/
def spans (text : List Char) (defined : HighlighterGroup Highlighter) :
    Nat → Highlighter → List HighlightSpan
  | _, .pattern p face => matchSpans text p face
  | 0, .reference _ => []
  | depth + 1, .reference path =>
    match defined.getGroup path with
    | .ok group => group.leaves.flatMap (spans text defined depth)
    | .error _ => []

/-- How deep references may nest. -/
def referenceLimit : Nat := 8

end Highlighter

/-- The spans of the global highlighters, then those of the document, then those of the window. -/
def Scene.highlight (s : Scene) : List HighlightSpan :=
  s.visibleTables.flatMap fun tables =>
    tables.highlighters.leaves.flatMap
      (Highlighter.spans s.document.text s.editor.definedHighlighters Highlighter.referenceLimit)

end ModalEdit
