import ModalEdit.OptionType

/-!
# Errors of the named tables

The errors of looking up and adding entries of the scoped tables. Each of them
can be caught by a command.
-/

namespace ModalEdit

/-- Why an entry cannot be found, added or changed. -/
inductive RegistryError where
  /-- A scope that is none of `global`, `buffer`, `window`, `buffer=<name>`. -/
  | unknownScope (keyword : String)
  | duplicateName (kind name : String)
  | notFound (kind name : String)
  /-- A filter or id pattern that does not compile. -/
  | invalidPattern (pattern : String)
  /-- A text that is no value of the option's type. -/
  | invalidValue (name : String) (type : OptionType) (text : String)
  /-- An option whose type has no addition. -/
  | notAddable (name : String) (type : OptionType)
  deriving DecidableEq, Repr

/-- The wording shown to users. -/
def RegistryError.message : RegistryError → String
  | .unknownScope keyword => s!"no such scope '{keyword}'"
  | .duplicateName kind name => s!"{kind} '{name}' already defined"
  | .notFound kind name => s!"{kind} '{name}' not found"
  | .invalidPattern pattern => s!"invalid regex '{pattern}'"
  | .invalidValue name type text =>
    s!"invalid {type.name} value '{text}' for option '{name}'"
  | .notAddable name type => s!"cannot add to {type.name} option '{name}'"

end ModalEdit
