import ModalEdit.Option.ListText
import ModalEdit.Pattern
import ModalEdit.RegistryError
import ModalEdit.Text.Blank
import ModalEdit.Text.Number
import ModalEdit.Text.Split

/-!
# Option values

The values of options with their text form. `OptionValue.parse` reads the text of
a value of a given type, `OptionValue.text` writes it, and `OptionValue.added`
adds a text to a value: numbers are summed, lists are appended to.
-/

namespace ModalEdit

/-- The value of an option. -/
inductive OptionValue where
  | int (n : Int)
  | bool (b : Bool)
  | str (s : String)
  | regex (pattern : String)
  | intList (items : List Int)
  | strList (items : List String)
  | lineFlagList (items : List (Nat × String))
  deriving DecidableEq, Repr

/-- Reads the keyword of a type. -/
def OptionType.parse (keyword : String) : Except RegistryError OptionType :=
  match OptionType.ofName? keyword with
  | some type => .ok type
  | none => .error (.notFound "option type" keyword)

/-- The value of an option that is declared without one. -/
def OptionType.default : OptionType → OptionValue
  | .int => .int 0
  | .bool => .bool false
  | .str => .str ""
  | .regex => .regex ""
  | .intList => .intList []
  | .strList => .strList []
  | .lineFlagList => .lineFlagList []

namespace OptionValue

/-- The type of a value. -/
def type : OptionValue → OptionType
  | int _ => .int
  | bool _ => .bool
  | str _ => .str
  | regex _ => .regex
  | intList _ => .intList
  | strList _ => .strList
  | lineFlagList _ => .lineFlagList

/-- The number of an integer option. -/
def int? : OptionValue → Option Int
  | int n => some n
  | _ => none

/-- The truth value of a boolean option. -/
def bool? : OptionValue → Option Bool
  | bool b => some b
  | _ => none

/-- The text of a string or pattern option. -/
def str? : OptionValue → Option String
  | str s | regex s => some s
  | _ => none

/-- The elements of a string list option. -/
def strList? : OptionValue → Option (List String)
  | strList items => some items
  | _ => none

/-! ## Reading -/

/-- Reads an integer; blanks around it are ignored. -/
def readInt? (text : String) : Option Int :=
  Text.readInt? Text.integerMin Text.integerMax (Text.trim text.toList)

/-- Reads a truth value. -/
def readBool? (text : String) : Option Bool :=
  match text with
  | "true" | "yes" | "on" => some true
  | "false" | "no" | "off" => some false
  | _ => none

/-- Reads a line number and a text with a bar in between. -/
def readLineFlag? (text : String) : Option (Nat × String) := do
  let (line, flag) ← Text.splitFirst '|' text.toList
  let line ← Text.readNat? Text.indexLimit (Text.trim line)
  return (line, String.ofList flag)

/-- Reads a value of a type. -/
def read? (type : OptionType) (text : String) : Option OptionValue :=
  match type with
  | .int => (readInt? text).map int
  | .bool => (readBool? text).map bool
  | .str => some (str text)
  | .regex => (Pattern.compile? text).map fun _ => regex text
  | .intList => ((ListText.split text).mapM readInt?).map intList
  | .strList => some (strList (ListText.split text))
  | .lineFlagList => ((ListText.split text).mapM readLineFlag?).map lineFlagList

/-- Reads a value of a type for the option `name`. -/
def parse (name : String) (type : OptionType) (text : String) :
    Except RegistryError OptionValue :=
  match read? type text with
  | some value => .ok value
  | none => .error (.invalidValue name type text)

/-- The value of a declaration: the text read as the type that the keyword names, or the default of
that type if there is no text. -/
def declared (name keyword : String) (text : Option String) : Except RegistryError OptionValue :=
  (OptionType.parse keyword).bind fun type =>
    match text with
    | some text => parse name type text
    | none => .ok type.default

/-! ## Writing and adding -/

/-- The text of a line number with its flag. -/
def lineFlagText (item : Nat × String) : String := s!"{item.1}|{item.2}"

/-- The text of a value. -/
def text : OptionValue → String
  | int n => toString n
  | bool true => "true"
  | bool false => "false"
  | str s | regex s => s
  | intList items => ListText.join (items.map toString)
  | strList items => ListText.join items
  | lineFlagList items => ListText.join (items.map lineFlagText)

/-- The sum of two integers, or the nearest integer that an option can hold. -/
def addInt (a b : Int) : Int := max Text.integerMin (min Text.integerMax (a + b))

/-- The sum of two values of a type that has one. -/
def add? : OptionValue → OptionValue → Option OptionValue
  | int a, int b => some (int (addInt a b))
  | intList a, intList b => some (intList (a ++ b))
  | strList a, strList b => some (strList (a ++ b))
  | lineFlagList a, lineFlagList b => some (lineFlagList (a ++ b))
  | _, _ => none

/-- Adds a text, read as a value of the same type, to the value of the option `name`. -/
def added (value : OptionValue) (name text : String) : Except RegistryError OptionValue :=
  (parse name value.type text).bind fun addend =>
    match value.add? addend with
    | some sum => .ok sum
    | none => .error (.notAddable name value.type)

end OptionValue

end ModalEdit
