import ModalEdit.Pattern.CharSet
import ModalEdit.Regex.Tree

/-!
# Items of patterns

What patterns are put together from: sets of characters and conditions on a
position.
-/

namespace ModalEdit.Pattern

/-- A condition on the characters on both sides of a position. -/
inductive WordEdge where
  /-- Exactly one side is a word character. -/
  | edge
  /-- Both or none are. -/
  | noEdge
  | start
  | stop
  /-- No word character before. -/
  | startHalf
  /-- No word character after. -/
  | stopHalf
  deriving Repr, DecidableEq

/-- Decides a word edge from whether there is a word character before and after. -/
def WordEdge.holds : WordEdge → Bool → Bool → Bool
  | .edge, before, after => before != after
  | .noEdge, before, after => before == after
  | .start, before, after => !before && after
  | .stop, before, after => before && !after
  | .startHalf, before, _ => !before
  | .stopHalf, _, after => !after

/-- A condition on a position of a text. -/
inductive Assertion where
  | textStart
  | textEnd
  /-- After a line end; with `crlf` a carriage return ends lines too. -/
  | lineStart (crlf : Bool)
  | lineEnd (crlf : Bool)
  /-- A word edge, for the word characters in `chars`. -/
  | word (kind : WordEdge) (chars : CharSet)
  deriving Repr, DecidableEq

/-- Decides an assertion from the characters before and after the position. -/
def Assertion.holds (before after : Option Char) : Assertion → Bool
  | .textStart => before.isNone
  | .textEnd => after.isNone
  | .lineStart false => before.all (· = '\n')
  | .lineEnd false => after.all (· = '\n')
  | .lineStart true =>
    before.all fun c => c = '\n' || (c = '\r' && after ≠ some '\n')
  | .lineEnd true =>
    after.all fun c => c = '\r' || (c = '\n' && before ≠ some '\r')
  | .word kind chars => kind.holds (before.any chars.mem) (after.any chars.mem)

/-- What matches by itself. -/
inductive Item where
  /-- One character of a set, whose notation nests so deep. -/
  | one (set : CharSet) (depth : Nat)
  | assertion (a : Assertion)
  deriving Repr, DecidableEq

/-- The kind of a group: its name, if it has one. -/
abbrev GroupKind := Option (List Char)

/-- A pattern tree. -/
abbrev Tree := Regex.Tree Item GroupKind

namespace Tree

/-- Number of single characters that a pattern spells out, copies of repetitions included. -/
def weight : Tree → Nat
  | .empty | .setting | .item (.assertion _) => 0
  | .item (.one _ _) => 1
  | .seq a b | .alt a b => weight a + weight b
  | .repetition op a => op.high.getD (op.low + 1) * weight a
  | .group _ a => weight a

/-- A sequence or a choice of alternatives around a part; all that it has nest in it alike. -/
inductive Spine where
  | sequence
  | choice
  | none
  deriving DecidableEq

/-- How deep the notation of a part nests that belongs to `spine`. -/
def depth : Spine → Tree → Nat
  | _, .empty | _, .setting | _, .item (.assertion _) => 0
  | _, .item (.one _ depth) => depth
  | spine, .seq a b =>
    let deepest := max (depth .none a) (depth .sequence b)
    if spine = .sequence then deepest else deepest + 1
  | spine, .alt a b =>
    let deepest := max (depth .choice a) (depth .none b)
    if spine = .choice then deepest else deepest + 1
  | _, .repetition _ a | _, .group _ a => depth .none a + 1

/-- The names of groups. -/
def names (tree : Tree) : List (List Char) := tree.groups.filterMap id

end Tree

end ModalEdit.Pattern
