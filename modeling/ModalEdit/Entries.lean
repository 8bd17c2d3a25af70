import ModalEdit.Completion

/-!
# Named entries in order

A list of named values in the order in which they were added; each name occurs
at most once in the lists that these operations build. `put` keeps the place of
a name that is present and appends one that is not; `rename` keeps the place;
`erase` keeps the order of the rest.
-/

namespace ModalEdit

/-- Named values in order. -/
abbrev Entries (V : Type) := List (String × V)

namespace Entries

variable {V : Type}

/-- The value with a name. -/
def get? (entries : Entries V) (name : String) : Option V := entries.lookup name

/-- Whether a name is present. -/
def contains (entries : Entries V) (name : String) : Bool := (entries.get? name).isSome

/-- The names in order. -/
def names (entries : Entries V) : List String := entries.map (·.1)

/-- Adds an entry at the end. -/
def append (entries : Entries V) (name : String) (value : V) : Entries V :=
  entries ++ [(name, value)]

/-- Changes the value with a name. -/
def modify (entries : Entries V) (name : String) (f : V → V) : Entries V :=
  entries.map fun entry => if entry.1 = name then (entry.1, f entry.2) else entry

/-- Sets the value of a name, in its place or at the end. -/
def put (entries : Entries V) (name : String) (value : V) : Entries V :=
  if entries.contains name then entries.modify name fun _ => value
  else entries.append name value

/-- Takes an entry out: its place, its value and the other entries. -/
def take? : Entries V → String → Option (Nat × V × Entries V)
  | [], _ => none
  | (n, v) :: rest, name =>
    if n = name then some (0, v, rest)
    else (take? rest name).map fun (place, value, others) => (place + 1, value, (n, v) :: others)

/-- Gives an entry another name: takes it out and puts it back at its place. -/
def rename (entries : Entries V) (source target : String) : Entries V :=
  match take? entries source with
  | none => entries
  | some (place, value, others) => others.insertIdx place (target, value)

/-- Removes an entry. -/
def erase (entries : Entries V) (name : String) : Entries V :=
  entries.filter (·.1 ≠ name)

/-- Completes the names. -/
def complete (entries : Entries V) (query : String) (cursor : Nat) : Completions :=
  .ofNames entries.names query cursor

/-- Completes the names of the entries whose value is accepted. -/
def completeIf (keep : V → Bool) (entries : Entries V) (query : String) (cursor : Nat) :
    Completions :=
  complete (entries.filter fun entry => keep entry.2) query cursor

end Entries

end ModalEdit
