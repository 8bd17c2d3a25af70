import ModalEdit.Entries

/-!
# TOML values

The values that a TOML document can hold. The order of the keys of a table has
no meaning in TOML; tables are kept sorted by key.
-/

namespace ModalEdit.Toml

/-- A TOML value. -/
inductive Value where
  | string (text : String)
  | integer (n : Int)
  | boolean (b : Bool)
  /-- A floating-point number as it is written. -/
  | float (text : String)
  /-- A date, a time or both, as written. -/
  | datetime (text : String)
  | array (items : List Value)
  | table (entries : List (String × Value))
  deriving Repr

/-- The keys of a table with their values. -/
abbrev Table := Entries Value

/-- A table with its keys sorted. -/
def Table.sorted (table : Table) : Table := table.mergeSort fun a b => a.1 ≤ b.1

end ModalEdit.Toml
