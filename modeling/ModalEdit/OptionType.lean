/-!
# Option types

The types that the value of an option can have, with the keywords by which
options are declared.
-/

namespace ModalEdit

/-- The type of an option. -/
inductive OptionType where
  | int
  | bool
  | str
  /-- A text that must be a pattern. -/
  | regex
  | intList
  | strList
  /-- Pairs of a line number and a text. -/
  | lineFlagList
  deriving DecidableEq, Repr

namespace OptionType

/-- All types, in the order in which they are offered. -/
def all : List OptionType := [.int, .bool, .str, .regex, .intList, .strList, .lineFlagList]

/-- The keyword of a type. -/
def name : OptionType → String
  | .int => "int"
  | .bool => "bool"
  | .str => "str"
  | .regex => "regex"
  | .intList => "int-list"
  | .strList => "str-list"
  | .lineFlagList => "line-flag-list"

/-- The type with that keyword. -/
def ofName? (keyword : String) : Option OptionType := all.find? (·.name = keyword)

end OptionType

end ModalEdit
