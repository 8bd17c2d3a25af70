/-!
# Trees of regular expressions

What a pattern is read as: items, which match by themselves, put together by
sequences, alternatives, repetitions and groups. Which items and which kinds of
groups there are is left open.
-/

namespace ModalEdit.Regex

/-- How often something is repeated. -/
structure Operator where
  low : Nat
  /-- Missing if there is no limit. -/
  high : Option Nat
  /-- Whether to repeat as often as possible, rather than as seldom. -/
  greedy : Bool
  ordered : ∀ n ∈ high, low ≤ n
  deriving Repr, DecidableEq

/-- At least so often. -/
def Operator.atLeast (low : Nat) (greedy : Bool) : Operator := ⟨low, none, greedy, nofun⟩

/-- At least and at most so often. -/
def Operator.between (low high : Nat) (ordered : low ≤ high) (greedy : Bool) : Operator :=
  ⟨low, some high, greedy, by simpa using ordered⟩

/-- A regular expression with items `I` and groups of the kinds `G`. -/
inductive Tree (I G : Type) where
  | empty
  | item (i : I)
  /-- Flags for what follows; matches nothing by itself. -/
  | setting
  | seq (a b : Tree I G)
  /-- `a` is preferred. -/
  | alt (a b : Tree I G)
  | repetition (op : Operator) (a : Tree I G)
  | group (kind : G) (a : Tree I G)
  deriving Repr, DecidableEq

namespace Tree

variable {I G : Type}

/-- The trees one after the other. -/
def sequence : List (Tree I G) → Tree I G
  | [] => empty
  | [a] => a
  | a :: rest => seq a (sequence rest)

/-- The kinds of all groups, in the order in which they open. -/
def groups : Tree I G → List G
  | empty | item _ | setting => []
  | seq a b | alt a b => a.groups ++ b.groups
  | repetition _ a => a.groups
  | group kind a => kind :: a.groups

end Tree

end ModalEdit.Regex
