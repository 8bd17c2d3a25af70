import ModalEdit.Text.Bytes

/-!
# Completions

A completion request is a query with a cursor, a byte offset into it. The answer
is a list of candidates and the byte range of the query that they replace.
-/

namespace ModalEdit

/-- Candidates for the bytes `[start, stop)` of a query, in the order shown. -/
structure Completions where
  candidates : List String
  start : Nat
  stop : Nat
  deriving DecidableEq, Repr, Inhabited

namespace Completions

/-- No candidates, at the cursor. -/
def emptyAt (cursor : Nat) : Completions := ⟨[], cursor, cursor⟩

/-- Whether there is nothing to offer. -/
def isEmpty (c : Completions) : Bool := c.candidates.isEmpty

/-- The same candidates for a query that starts `n` bytes into another one. -/
def shift (c : Completions) (n : Nat) : Completions :=
  { c with start := c.start + n, stop := c.stop + n }

/-- The part of `query` before the cursor, rounded down to a character. -/
def typed (query : String) (cursor : Nat) : List Char :=
  Text.takeBytes query.toList cursor

/-- The cursor, rounded down to a character of `query`. -/
def floor (query : String) (cursor : Nat) : Nat :=
  Text.floorBoundary query.toList cursor

/-- The names that start with what is typed, in their order; they replace all of it. -/
def ofNames (names : List String) (query : String) (cursor : Nat) : Completions :=
  ⟨names.filter fun name => (typed query cursor).isPrefixOf name.toList, 0, floor query cursor⟩

end Completions

end ModalEdit
