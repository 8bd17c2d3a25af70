import ModalEdit.Selection

/-!
# Selection lists

The selections of a context: at least one, in text order, no two of them
overlapping or touching, one of them the main one. `validate` checks this;
`normalize` establishes it by sorting and merging, and every operation that
moves selections ends in it. The main selection is followed through both.
-/

namespace ModalEdit

/-- A rule that a selection list breaks. -/
inductive SelectionError where
  | empty
  | mainOutOfBounds (index length : Nat)
  /-- The selection at `index` does not lie behind the one before it. -/
  | overlap (index : Nat)
  deriving DecidableEq, Repr

/-- The wording shown to users. -/
def SelectionError.message : SelectionError → String
  | .empty => "selection list is empty"
  | .mainOutOfBounds index length =>
    s!"main selection index {index} out of bounds for {length} selections"
  | .overlap index => s!"selection {index} overlaps or precedes its predecessor"

/-- Selections with the index of the main one. -/
structure SelectionList where
  selections : List Selection
  mainIndex : Nat
  deriving DecidableEq, Repr

namespace SelectionList

/-- The list of one selection. -/
def single (s : Selection) : SelectionList := ⟨[s], 0⟩

instance : Inhabited SelectionList := ⟨single (.point .origin)⟩

/-- Number of selections. -/
def length (l : SelectionList) : Nat := l.selections.length

/-- The selection at `index`, counted in text order. -/
def get? (l : SelectionList) (index : Nat) : Option Selection := l.selections[index]?

/-- The main selection. -/
def main (l : SelectionList) : Selection := (l.get? l.mainIndex).getD (.point .origin)

/-! ## Normal form -/

/-- Merges a selection with those right after it that it touches, and so on.

Each selection comes with a mark; a merged selection is marked if one of its parts was. -/
def mergeRuns (current : Selection × Bool) : List (Selection × Bool) → List (Selection × Bool)
  | [] => [current]
  | next :: rest =>
    if current.1.touches next.1 then
      mergeRuns (current.1.merge next.1, current.2 || next.2) rest
    else current :: mergeRuns next rest

/-- Marks the selection at `mainIndex` and no other. -/
def marked (l : SelectionList) : List (Selection × Bool) :=
  l.selections.zipIdx.map fun entry => (entry.1, entry.2 == l.mainIndex)

/-- Marked selections in the order of their starts; equal starts keep their order. -/
def sortMarked (entries : List (Selection × Bool)) : List (Selection × Bool) :=
  entries.mergeSort fun a b => a.1.start ≤ b.1.start

/-- The list of marked selections, the first marked one being the main one. -/
def ofMarked (entries : List (Selection × Bool)) : SelectionList :=
  ⟨entries.map (·.1), entries.findIdx (·.2)⟩

/-- Sorts the selections and merges those that overlap or touch. -/
def normalize (l : SelectionList) : SelectionList :=
  match sortMarked l.marked with
  | [] => ⟨[], 0⟩
  | first :: rest => ofMarked (mergeRuns first rest)

/-- The index of the first selection that does not lie behind its predecessor; `index` is that
of the second one given. -/
def firstOverlap? (index : Nat) : List Selection → Option Nat
  | s :: t :: rest =>
    if t.start ≤ s.stop then some index else firstOverlap? (index + 1) (t :: rest)
  | _ => none

/-- Checks the rules of a selection list. -/
def validate (l : SelectionList) : Except SelectionError Unit :=
  if l.selections.isEmpty then .error .empty
  else if l.length ≤ l.mainIndex then .error (.mainOutOfBounds l.mainIndex l.length)
  else match firstOverlap? 1 l.selections with
    | some index => .error (.overlap index)
    | none => .ok ()

/-! ## Making and changing lists -/

/-- The list of a main selection and others. -/
def ofMain (main : Selection) (others : List Selection) : SelectionList :=
  normalize ⟨main :: others, 0⟩

/-- The list of the given selections. -/
def ofList? (selections : List Selection) (mainIndex : Nat) : Except SelectionError SelectionList :=
  if selections.isEmpty then .error .empty
  else if selections.length ≤ mainIndex then
    .error (.mainOutOfBounds mainIndex selections.length)
  else .ok (normalize ⟨selections, mainIndex⟩)

/-- Makes another selection the main one, if there is one at `index`. -/
def setMain? (l : SelectionList) (index : Nat) : Option SelectionList :=
  if index < l.length then some { l with mainIndex := index } else none

/-- Makes the next selection the main one, the first after the last. -/
def rotateMain (l : SelectionList) : SelectionList :=
  { l with mainIndex := (l.mainIndex + 1) % l.length }

/-- Adds a selection. -/
def push (l : SelectionList) (s : Selection) : SelectionList :=
  normalize { l with selections := l.selections ++ [s] }

/-- Removes the selection at `index`, unless it is the only one.

The main selection stays the same one; if it is removed its successor follows, or the new last. -/
def remove (l : SelectionList) (index : Nat) : SelectionList :=
  if 1 < l.length ∧ index < l.length then
    let rest := l.selections.eraseIdx index
    ⟨rest, if index < l.mainIndex ∨ l.mainIndex = rest.length then l.mainIndex - 1
      else l.mainIndex⟩
  else l

/-- Changes every selection. -/
def transform (f : Selection → Selection) (l : SelectionList) : SelectionList :=
  normalize { l with selections := l.selections.map f }

/-- Moves both ends of every selection. -/
def mapCoords (f : Coord → Coord) (l : SelectionList) : SelectionList :=
  l.transform (·.map f)

end SelectionList

end ModalEdit
