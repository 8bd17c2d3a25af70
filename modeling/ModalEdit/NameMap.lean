import ModalEdit.Entries
import ModalEdit.RegistryError

/-!
# Name maps

Named entries of one kind. The operations that need an entry, or need a name to
be free, report a missing or taken name together with the kind.
-/

namespace ModalEdit

/-- Entries of one kind, by name and in order. -/
structure NameMap (V : Type) where
  /-- What an entry is called in messages. -/
  kind : String
  entries : Entries V := []
  deriving Repr

namespace NameMap

variable {V : Type}

/-- Number of entries. -/
def size (m : NameMap V) : Nat := m.entries.length

/-- Whether there are no entries. -/
def isEmpty (m : NameMap V) : Bool := m.entries.isEmpty

/-- Whether a name is present. -/
def contains (m : NameMap V) (name : String) : Bool := m.entries.contains name

/-- The value with a name. -/
def get? (m : NameMap V) (name : String) : Option V := m.entries.get? name

/-- The names in order. -/
def names (m : NameMap V) : List String := m.entries.names

/-- The error of a missing name. -/
def notFound (m : NameMap V) (name : String) : RegistryError := .notFound m.kind name

/-- The error of a taken name. -/
def duplicate (m : NameMap V) (name : String) : RegistryError := .duplicateName m.kind name

/-- The value with a name, which must be present. -/
def find (m : NameMap V) (name : String) : Except RegistryError V :=
  match m.get? name with
  | some value => .ok value
  | none => .error (m.notFound name)

/-- Adds an entry at the end; the name must be free. -/
def insert (m : NameMap V) (name : String) (value : V) : Except RegistryError (NameMap V) :=
  if m.contains name then .error (m.duplicate name)
  else .ok { m with entries := m.entries.append name value }

/-- Sets the value of a name, in its place or at the end. -/
def put (m : NameMap V) (name : String) (value : V) : NameMap V :=
  { m with entries := m.entries.put name value }

/-- Changes the value with a name. -/
def modify (m : NameMap V) (name : String) (f : V → V) : NameMap V :=
  { m with entries := m.entries.modify name f }

/-- Gives an entry another name, in its place. The entry must be present and the new name free,
unless it is the old one. -/
def rename (m : NameMap V) (source target : String) : Except RegistryError (NameMap V) :=
  if !m.contains source then .error (m.notFound source)
  else if source = target then .ok m
  else if m.contains target then .error (m.duplicate target)
  else .ok { m with entries := m.entries.rename source target }

/-- Removes an entry. -/
def erase (m : NameMap V) (name : String) : NameMap V :=
  { m with entries := m.entries.erase name }

/-- Keeps the accepted entries. -/
def retain (m : NameMap V) (keep : String → V → Bool) : NameMap V :=
  { m with entries := m.entries.filter fun entry => keep entry.1 entry.2 }

/-- Changes every value. -/
def mapValues (m : NameMap V) (f : V → V) : NameMap V :=
  { m with entries := m.entries.map fun entry => (entry.1, f entry.2) }

/-- Completes the names. -/
def complete (m : NameMap V) (query : String) (cursor : Nat) : Completions :=
  m.entries.complete query cursor

/-- Completes the names of the entries whose value is accepted. -/
def completeIf (m : NameMap V) (keep : V → Bool) (query : String) (cursor : Nat) : Completions :=
  m.entries.completeIf keep query cursor

end NameMap

end ModalEdit
