import ModalEdit.CommandError

/-!
# Registers

A register has a one-character name and holds a list of texts. The registers `%`
and `.` are read from the context, and so cannot be written.
-/

namespace ModalEdit

/-- The texts of the registers that were set. -/
structure Registers where
  entries : List (Char × List String) := []
  deriving DecidableEq, Repr, Inhabited

namespace Registers

/-- Where yanked text goes. -/
def yank : Char := '"'

/-- Where the last search pattern is kept. -/
def search : Char := '/'

/-- The register that reads the name of the document. -/
def documentName : Char := '%'

/-- The register that reads the selected texts. -/
def selection : Char := '.'

/-- Whether a register is read from the context. -/
def isDynamic (name : Char) : Bool := name = documentName || name = selection

/-- The texts of a register that was set. -/
def get? (r : Registers) (name : Char) : Option (List String) := r.entries.lookup name

/-- Forgets a register. -/
def erase (r : Registers) (name : Char) : Registers := ⟨r.entries.filter (·.1 ≠ name)⟩

/-- Sets a register. -/
def put (r : Registers) (name : Char) (values : List String) : Registers :=
  ⟨(name, values) :: (r.erase name).entries⟩

/-- Sets a register that can be written. -/
def set (r : Registers) (name : Char) (values : List String) : Except CommandError Registers :=
  if isDynamic name then .error (.invalidArgument s!"register '{name}' is read-only")
  else .ok (r.put name values)

/-- What some registers hold. -/
def save (r : Registers) (names : List Char) : List (Char × Option (List String)) :=
  names.map fun name => (name, r.get? name)

/-- Makes a register hold again what it held when it was saved. -/
def restoreOne (r : Registers) (saved : Char × Option (List String)) : Registers :=
  match saved.2 with
  | some values => r.put saved.1 values
  | none => r.erase saved.1

/-- Makes registers hold again what they held when they were saved. -/
def restore (r : Registers) (saved : List (Char × Option (List String))) : Registers :=
  saved.foldl restoreOne r

/-- The register that a text of one character names. -/
def ofName (name : String) : Except CommandError Char :=
  match name.toList with
  | [c] => .ok c
  | _ => .error (.invalidArgument s!"register name '{name}' is not a single character")

end Registers

end ModalEdit
