import ModalEdit.Pattern.Constructs
import ModalEdit.Pattern.Matching
import ModalEdit.Regex.Engine

/-!
# Patterns

Regular expressions over characters: searches are leftmost, and earlier
alternatives and longer repetitions are preferred. Patterns that nest too deep
or get too large are refused, and so are those that use a name for two groups.
-/

namespace ModalEdit

/-- A pattern: its text and what it is read as. -/
structure Pattern where
  text : String
  tree : Pattern.Tree
  deriving Repr, DecidableEq

namespace Pattern

/-- Patterns that nest deeper than this are refused. -/
def nestLimit : Nat := 250

/-- Patterns that spell out more characters than this are refused. -/
def maxWeight : Nat := 400000

/-- Whether a pattern tree is within the limits. -/
def Tree.fits (tree : Tree) : Bool :=
  depth .none tree ≤ nestLimit && weight tree ≤ maxWeight

/-- Compiles a pattern. -/
def compile? (text : String) : Option Pattern :=
  match lexer.read text.toList with
  | .ok tree => if (Tree.names tree).Nodup ∧ Tree.fits tree then some ⟨text, tree⟩ else none
  | .error _ => none

/-- Whether the pattern matches somewhere in a text. -/
def isMatch (p : Pattern) (text : String) : Bool := Tree.isMatch p.tree text.toList

instance : Regex.Engine Pattern := ⟨compile?, isMatch⟩

end Pattern

end ModalEdit
