import ModalEdit.Text.Number
import ModalEdit.Text.Split

/-!
# File locations

A file argument is a path, optionally with `:line` or `:line:column` behind it,
both counted from one. What is no positive number stays part of the path.
-/

namespace ModalEdit

/-- A path with an optional position, counted from zero. -/
structure FileLocation where
  path : String
  line : Option Nat := none
  /-- Present only with a line. -/
  column : Option Nat := none
  deriving DecidableEq, Repr, Inhabited

namespace FileLocation

/-- Reads a positive number and counts it from zero. -/
def readPosition? (text : List Char) : Option Nat :=
  match Text.readNat? Text.indexLimit text with
  | some (n + 1) => some n
  | _ => none

/-- A path and the number behind its last colon, if there are both. -/
def splitPosition? (text : List Char) : Option (List Char × Nat) :=
  match Text.splitLast ':' text with
  | some ([], _) => none
  | some (path, number) => (readPosition? number).map (path, ·)
  | none => none

/-- Reads a file argument. -/
def parse (arg : String) : FileLocation :=
  match splitPosition? arg.toList with
  | none => { path := arg }
  | some (rest, last) =>
    match splitPosition? rest with
    | some (path, line) => ⟨String.ofList path, some line, some last⟩
    | none => ⟨String.ofList rest, some last, none⟩

end FileLocation

end ModalEdit
