import ModalEdit.Host
import ModalEdit.Option.ListText
import ModalEdit.Toml.Reader

/-!
# User configuration

A config file is a TOML document with values of global options, hooks, key
mappings and command lines to run in the end:

    init = ["echo ready"]
    [options]
    tabstop = 4
    [[hooks]]
    event = "BufCreate"
    commands = "set buffer filetype text"
    [[keys]]
    key = "<c-s>"
    mapping = "y"

Fields that are not known make the whole document invalid.
-/

namespace ModalEdit

/-- A hook of a config. -/
structure HookEntry where
  scope : String := "global"
  event : String
  filter : String := ".*"
  id : String := ""
  commands : String
  deriving DecidableEq, Repr

/-- A key mapping of a config. -/
structure KeyEntry where
  scope : String := "global"
  mode : String := "normal"
  key : String
  mapping : String
  deriving DecidableEq, Repr

/-- What a config file says. -/
structure Config where
  /-- Values of global options, sorted by name. -/
  options : Toml.Table := []
  hooks : List HookEntry := []
  keys : List KeyEntry := []
  /-- Command lines to run in the end. -/
  init : List String := []
  deriving Repr

/-- Why there is no config, or a value in it is of no use. -/
inductive ConfigError where
  | unreadable (path : String) (error : FileError)
  | malformed
  /-- An option has a value that no option can hold, such as a table. -/
  | unsupportedValue (option : String)
  deriving DecidableEq, Repr

/-- The wording shown to users. -/
def ConfigError.message : ConfigError → String
  | unreadable path error => s!"I/O error reading {path}: {error.message}"
  | malformed => "TOML parse error"
  | unsupportedValue option => s!"unsupported value for option '{option}'"

/-! ## Reading -/

namespace Config

/-- The text of a string. -/
def text? : Toml.Value → Option String
  | .string s => some s
  | _ => none

/-- The items of an array. -/
def items? : Toml.Value → Option (List Toml.Value)
  | .array items => some items
  | _ => none

/-- The entries of a table. -/
def entries? : Toml.Value → Option Toml.Table
  | .table entries => some entries
  | _ => none

/-- The fields of an entry, all of them texts: a table with some of these names, or an array with
the values in this order. -/
def fields? (names : List String) : Toml.Value → Option (Entries String)
  | .table entries =>
    if entries.all fun entry => names.contains entry.1 then
      entries.mapM fun (name, value) => (text? value).map (name, ·)
    else none
  | .array items =>
    if items.length < names.length then none
    else ((items.take names.length).mapM text?).map names.zip
  | _ => none

/-- Reads a hook. -/
def hook? (value : Toml.Value) : Option HookEntry := do
  let fields ← fields? ["scope", "event", "filter", "id", "commands"] value
  return {
    scope := (fields.get? "scope").getD "global"
    event := ← fields.get? "event"
    filter := (fields.get? "filter").getD ".*"
    id := (fields.get? "id").getD ""
    commands := ← fields.get? "commands" }

/-- Reads a key mapping. -/
def key? (value : Toml.Value) : Option KeyEntry := do
  let fields ← fields? ["scope", "mode", "key", "mapping"] value
  return {
    scope := (fields.get? "scope").getD "global"
    mode := (fields.get? "mode").getD "normal"
    key := ← fields.get? "key"
    mapping := ← fields.get? "mapping" }

/-- Reads a field of the document that is a list. -/
def list? {α : Type} (table : Toml.Table) (name : String) (item? : Toml.Value → Option α) :
    Option (List α) :=
  match table.get? name with
  | none => some []
  | some value => (items? value).bind (·.mapM item?)

/-- The fields of a config. -/
def fieldNames : List String := ["options", "hooks", "keys", "init"]

/-- The config that a document describes. -/
def ofTable? (table : Toml.Table) : Option Config :=
  if table.all fun entry => fieldNames.contains entry.1 then do
    return {
      options := ← ((table.get? "options").map entries?).getD (some [])
      hooks := ← list? table "hooks" hook?
      keys := ← list? table "keys" key?
      init := ← list? table "init" text? }
  else none

/-- Reads a config with a reader of TOML documents. -/
def parseWith (read? : String → Option Toml.Table) (text : String) : Except ConfigError Config :=
  match (read? text).bind ofTable? with
  | some config => .ok config
  | none => .error .malformed

/-- Reads a config. -/
def parse (text : String) : Except ConfigError Config := parseWith Toml.parse? text

/-- The config in a file, from the outcome of reading the file. -/
def ofFile (path : String) (content : Except FileError String) : Except ConfigError Config :=
  match content with
  | .ok text => parse text
  | .error error => .error (.unreadable path error)

/-- Two configs in one: the options of the second one win, and its entries come last. -/
def merge (first second : Config) : Config where
  options := (second.options.foldl (fun table (name, value) => table.put name value)
    first.options : Toml.Table).sorted
  hooks := first.hooks ++ second.hooks
  keys := first.keys ++ second.keys
  init := first.init ++ second.init

/-! ## Looking for a config -/

/-- The name of config files. -/
def fileName : String := "config.toml"

/-- The path of the config file of a directory. -/
def pathIn (directory : String) : String :=
  if directory.isEmpty || directory.endsWith "/" then directory ++ fileName
  else directory ++ "/" ++ fileName

/-- What looking for a config gave. -/
structure Report where
  /-- The config, if there is a file with one. -/
  config : Option Config := none
  errors : List (String × ConfigError) := []
  deriving Repr

/-- The report on a file, from the outcome of reading it. That there is no file is no error. -/
def report (path : String) (content : Except FileError String) : Report :=
  match content with
  | .error error => if error.isFile then { errors := [(path, .unreadable path error)] } else {}
  | .ok text =>
    match parse text with
    | .ok config => { config := some config }
    | .error error => { errors := [(path, error)] }

/-- Looks for a config in a directory. -/
def lookIn (readFile : String → Except FileError String) (directory : String) : Report :=
  report (pathIn directory) (readFile (pathIn directory))

/-! ## Values of options -/

mutual

/-- The text by which an option is set to a value; options cannot hold every value. -/
def optionText? : Toml.Value → Option String
  | .string s => some s
  | .integer n => some (toString n)
  | .boolean b => some (if b then "true" else "false")
  | .array items => (optionTexts? items).map ListText.join
  | .float _ | .datetime _ | .table _ => none

/-- The texts of the items of a list. -/
def optionTexts? : List Toml.Value → Option (List String)
  | [] => some []
  | item :: rest => do return (← optionText? item) :: (← optionTexts? rest)

end

/-- The text by which the option with that name is set to a value. -/
def optionText (name : String) (value : Toml.Value) : Except ConfigError String :=
  match optionText? value with
  | some text => .ok text
  | none => .error (.unsupportedValue name)

end Config

end ModalEdit
