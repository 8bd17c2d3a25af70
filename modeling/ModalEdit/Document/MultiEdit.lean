import ModalEdit.Document

/-!
# Edits at every selection

A tracker of a document stands for several cursors. Each edit here goes through
its selections from the last to the first, and reads each of them only when its
turn comes, for an edit may move or merge the others. The first failure ends it.
-/

namespace ModalEdit

/-- On which side of a selection text is inserted. -/
inductive InsertPosition where
  | before
  | after
  deriving DecidableEq, Repr

namespace Document

/-- The selections of a tracker; the default list if there is no such tracker. -/
def selections (d : Document) (tracker : Nat) : SelectionList := (d.tracked? tracker).getD default

/-- The text covered by each selection. -/
def selectedTexts (d : Document) (tracker : Nat) : List String :=
  (d.selections tracker).selections.map fun s => d.content s.start s.stop

/-- Runs an edit for the selections with an index below the last argument, the last one first. -/
def editEach (tracker : Nat)
    (edit : Nat → Selection → Document → Except SelectionError Unit × Document)
    (d : Document) : Nat → Except SelectionError Unit × Document
  | 0 => (.ok (), d)
  | index + 1 =>
    match (d.selections tracker).get? index with
    | none => d.editEach tracker edit index
    | some s =>
      match edit index s d with
      | (.ok _, d) => d.editEach tracker edit index
      | (.error e, d) => (.error e, d)

/-- Runs an edit for every selection. -/
def editAll (tracker : Nat)
    (edit : Nat → Selection → Document → Except SelectionError Unit × Document)
    (d : Document) : Except SelectionError Unit × Document :=
  d.editEach tracker edit (d.selections tracker).length

/-- The place beside a selection. -/
def placeOf (position : InsertPosition) (s : Selection) : Coord :=
  match position with
  | .before => s.start
  | .after => s.stop

/-- Inserts a text and forgets where it ends. -/
def insertText (d : Document) (place : Coord) (text : List Char) :
    Except SelectionError Unit × Document :=
  let (result, d) := d.insert place text
  (result.map fun _ => (), d)

/-- Inserts the text of the same index at each selection; the last text serves all further ones. -/
def insertAll (d : Document) (tracker : Nat) (texts : List String) (position : InsertPosition) :
    Except SelectionError Unit × Document :=
  match texts.getLast? with
  | none => (.ok (), d)
  | some last =>
    d.editAll tracker fun index s d =>
      d.insertText (placeOf position s) (texts.getD index last).toList

/-- Erases what the selections cover. -/
def eraseAll (d : Document) (tracker : Nat) : Except SelectionError Unit × Document :=
  d.editAll tracker fun _ s d => d.erase s.start s.stop

/-- Erases the character before each selection. -/
def eraseBeforeAll (d : Document) (tracker : Nat) : Except SelectionError Unit × Document :=
  d.editAll tracker fun _ s d =>
    if s.start = .origin then (.ok (), d)
    else d.erase (Text.prevCoord d.text s.start) s.start

end Document

end ModalEdit
