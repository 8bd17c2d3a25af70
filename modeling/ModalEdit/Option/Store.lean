import ModalEdit.NameMap
import ModalEdit.Option.Value

/-!
# Option stores

The options of one scope. An option is declared once, usually in the global
store, which fixes its type; the stores of inner scopes hold overrides, which
take the type of the value they hide. `resolve` looks through a chain of stores,
the innermost first.
-/

namespace ModalEdit

/-- A stored value and whether completion leaves the option out. -/
structure OptionEntry where
  value : OptionValue
  hidden : Bool := false
  deriving DecidableEq, Repr

/-- The options of one scope. -/
structure OptionStore where
  entries : Entries OptionEntry := []
  deriving DecidableEq, Repr, Inhabited

namespace OptionStore

/-- Whether the store itself holds an option. -/
def contains (store : OptionStore) (name : String) : Bool := store.entries.contains name

/-- The value that the store itself holds. -/
def get? (store : OptionStore) (name : String) : Option OptionValue :=
  (store.entries.get? name).map (·.value)

/-- Declares an option that the store does not hold yet. -/
def declare (store : OptionStore) (name : String) (value : OptionValue) (hidden : Bool) :
    Except RegistryError OptionStore :=
  if store.contains name then .error (.duplicateName "option" name)
  else .ok ⟨store.entries.append name ⟨value, hidden⟩⟩

/-- Sets a value; an option that is present stays hidden or visible. -/
def set (store : OptionStore) (name : String) (value : OptionValue) : OptionStore :=
  match store.entries.get? name with
  | some entry => ⟨store.entries.put name { entry with value }⟩
  | none => ⟨store.entries.append name { value }⟩

/-- The value that an assignment starts from: the local one, else the inherited one. -/
def base (store : OptionStore) (name : String) (inherited : Option OptionValue) :
    Except RegistryError OptionValue :=
  match (store.get? name).or inherited with
  | some value => .ok value
  | none => .error (.notFound "option" name)

/-- Sets an option to a text, read with the type of the value it replaces or hides. -/
def setText (store : OptionStore) (name text : String) (inherited : Option OptionValue) :
    Except RegistryError (OptionValue × OptionStore) := do
  let base ← store.base name inherited
  let value ← OptionValue.parse name base.type text
  return (value, store.set name value)

/-- Adds a text to the value in effect and stores the sum. -/
def addText (store : OptionStore) (name text : String) (inherited : Option OptionValue) :
    Except RegistryError (OptionValue × OptionStore) := do
  let base ← store.base name inherited
  let value ← base.added name text
  return (value, store.set name value)

/-- Removes an option of this store. -/
def unset (store : OptionStore) (name : String) : OptionStore := ⟨store.entries.erase name⟩

/-- Completes the names of the options that are not hidden. -/
def complete (store : OptionStore) (query : String) (cursor : Nat) : Completions :=
  store.entries.completeIf (!·.hidden) query cursor

/-- The value in the first store that holds the option. -/
def resolve (stores : List OptionStore) (name : String) : Option OptionValue :=
  stores.findSome? (·.get? name)

end OptionStore

end ModalEdit
