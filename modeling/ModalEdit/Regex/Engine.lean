/-!
# Engines for regular expressions

What is asked of an engine: to compile patterns and to search texts. A pattern
that has to match the whole of a text is compiled between anchors, as text.
-/

namespace ModalEdit.Regex

/-- An engine whose compiled patterns are `R`. -/
class Engine (R : Type) where
  compile? : String → Option R
  /-- Whether a pattern matches somewhere in a text. -/
  isMatch : R → String → Bool

/-- A pattern between anchors. -/
def anchor (pattern : String) : String := "^(?:" ++ pattern ++ ")$"

/-- Compiles a pattern that has to match the whole of a text. -/
def compileFull? {R : Type} [Engine R] (pattern : String) : Option R :=
  Engine.compile? (anchor pattern)

end ModalEdit.Regex
