import ModalEdit.FileLocation

/-!
# Program arguments

    -e, --execute <commands>   -n, --no-config   -h, --help
    -k, --keys <keys>          -p, --print       -V, --version
    -c, --client <name>        -v, --verbose
        --config-dir <dir>

Everything else is a file. A value follows its option as the next argument, or
is attached to it: `--keys=x`, `-kx`, `-k=x`. Short flags can be joined. Behind
`--` everything is a file, and so is a single `-` where no value is awaited.

An option takes effect when the next option, flag or file comes, or at the end.
So what is wrong with it comes to light after what is unreadable in between.
-/

namespace ModalEdit

/-- What the program is to do. -/
structure Arguments where
  files : List FileLocation := []
  /-- Command lines to run in the client. -/
  commands : List String := []
  /-- Keys to press after the commands. -/
  keys : Option String := none
  /-- The name of the client. -/
  client : Option String := none
  /-- The directory of the config. -/
  configDirectory : Option String := none
  noConfig : Bool := false
  /-- Whether to print the text in the end. -/
  print : Bool := false
  verbose : Bool := false
  deriving DecidableEq, Repr, Inhabited

/-- Why arguments do not describe a run. -/
inductive ArgumentError where
  /-- There is no such option or flag. -/
  | unknown (argument : String)
  /-- An option lacks a value, or has an empty one where that makes no sense. -/
  | missingValue
  /-- A flag has a value. -/
  | unexpectedValue
  /-- An option or flag is given twice that cannot be. -/
  | repeated
  /-- A config directory is given, and no config is wanted. -/
  | conflict
  | helpWanted
  | versionWanted
  deriving DecidableEq, Repr

/-- The wording shown to users. -/
def ArgumentError.message : ArgumentError → String
  | unknown argument => s!"unexpected argument '{argument}'"
  | missingValue => "an option lacks its value"
  | unexpectedValue => "a flag takes no value"
  | repeated => "an option is given more than once"
  | conflict => "--config-dir and --no-config cannot be used together"
  | helpWanted => "help"
  | versionWanted => "version"

namespace Arguments

/-- An option with a value. -/
inductive ValueOption where
  | execute
  | keys
  | client
  | configDirectory
  deriving DecidableEq, Repr

/-- An option without a value. -/
inductive Flag where
  | noConfig
  | print
  | verbose
  | help
  | version
  deriving DecidableEq, Repr

/-- What a name behind dashes stands for. -/
inductive Switch where
  | option (o : ValueOption)
  | flag (f : Flag)
  deriving DecidableEq, Repr

/-- The switch with a long name. -/
def ofLongName? : String → Option Switch
  | "execute" => some (.option .execute)
  | "keys" => some (.option .keys)
  | "client" => some (.option .client)
  | "config-dir" => some (.option .configDirectory)
  | "no-config" => some (.flag .noConfig)
  | "print" => some (.flag .print)
  | "verbose" => some (.flag .verbose)
  | "help" => some (.flag .help)
  | "version" => some (.flag .version)
  | _ => none

/-- The switch with a letter. -/
def ofLetter? : Char → Option Switch
  | 'e' => some (.option .execute)
  | 'k' => some (.option .keys)
  | 'c' => some (.option .client)
  | 'n' => some (.flag .noConfig)
  | 'p' => some (.flag .print)
  | 'v' => some (.flag .verbose)
  | 'h' => some (.flag .help)
  | 'V' => some (.flag .version)
  | _ => none

/-- A value for something that can be given once. -/
def once {α : Type} (current : Option α) (value : α) : Except ArgumentError (Option α) :=
  if current.isSome then .error .repeated else .ok (some value)

/-- Sets an option. -/
def setOption (a : Arguments) (value : String) : ValueOption → Except ArgumentError Arguments
  | .execute => .ok { a with commands := a.commands ++ [value] }
  | .keys => (once a.keys value).map fun keys => { a with keys }
  | .client => (once a.client value).map fun client => { a with client }
  | .configDirectory => do
    let configDirectory ← once a.configDirectory value
    if value.isEmpty then .error .missingValue else .ok { a with configDirectory }

/-- Raises a flag. -/
def raise (a : Arguments) : Flag → Except ArgumentError Arguments
  | .noConfig => if a.noConfig then .error .repeated else .ok { a with noConfig := true }
  | .print => if a.print then .error .repeated else .ok { a with print := true }
  | .verbose => if a.verbose then .error .repeated else .ok { a with verbose := true }
  | .help => .error .helpWanted
  | .version => .error .versionWanted

/-- An option that has not taken effect yet, with its value if that was given. -/
structure Pending where
  option : ValueOption
  value : Option String := none
  deriving DecidableEq, Repr

/-- What has been read of the arguments. -/
structure Reader where
  arguments : Arguments := {}
  pending : Option Pending := none
  /-- Whether only files follow. -/
  onlyFiles : Bool := false
  deriving DecidableEq, Repr

namespace Reader

/-- Lets the pending option take effect. -/
def settle (r : Reader) : Except ArgumentError Reader :=
  match r.pending with
  | none => .ok r
  | some ⟨_, none⟩ => .error .missingValue
  | some ⟨option, some value⟩ =>
    (r.arguments.setOption value option).map fun arguments => { r with arguments, pending := none }

/-- Reads an option with its value if that is attached. -/
def option (r : Reader) (option : ValueOption) (value : Option String) :
    Except ArgumentError Reader := do
  let r ← r.settle
  match value with
  | none => return { r with pending := some { option } }
  | some value =>
    let arguments ← r.arguments.setOption value option
    return { r with arguments }

/-- Reads a flag. -/
def flag (r : Reader) (flag : Flag) : Except ArgumentError Reader := do
  let r ← r.settle
  let arguments ← r.arguments.raise flag
  return { r with arguments }

/-- Reads a file. -/
def file (r : Reader) (text : String) : Except ArgumentError Reader := do
  let r ← r.settle
  return { r with arguments :=
    { r.arguments with files := r.arguments.files ++ [FileLocation.parse text] } }

/-- Reads the text behind two dashes. -/
def long (r : Reader) (text : List Char) : Except ArgumentError Reader :=
  let (name, value) := match Text.splitFirst '=' text with
    | some (name, value) => (String.ofList name, some (String.ofList value))
    | none => (String.ofList text, none)
  match ofLongName? name, value with
  | some (.option o), value => r.option o value
  | some (.flag f), none => r.flag f
  | some (.flag _), some _ => .error .unexpectedValue
  | none, _ => .error (.unknown ("--" ++ name))

/-- A value attached to a letter; there may be an equals sign in between. -/
def attached? : List Char → Option String
  | [] => none
  | '=' :: value => some (String.ofList value)
  | value => some (String.ofList value)

/-- Reads the letters behind a dash. -/
def letters (r : Reader) : List Char → Except ArgumentError Reader
  | [] => .ok r
  | c :: rest =>
    match ofLetter? c with
    | some (.option o) => r.option o (attached? rest)
    | some (.flag f) => (r.flag f).bind (letters · rest)
    | none => .error (.unknown (String.ofList ['-', c]))

/-- Reads what has no dashes in front: the value that an option awaits, or else a file. -/
def plain (r : Reader) (text : String) : Except ArgumentError Reader :=
  match r.pending with
  | some ⟨option, none⟩ => .ok { r with pending := some ⟨option, some text⟩ }
  | _ => r.file text

/-- Reads an argument. -/
def argument (r : Reader) (text : String) : Except ArgumentError Reader :=
  if r.onlyFiles then r.file text
  else match text.toList with
    | ['-', '-'] => .ok { r with onlyFiles := true }
    | '-' :: '-' :: name => r.long name
    | '-' :: c :: rest => r.letters (c :: rest)
    | _ => r.plain text

/-- The arguments once all are read. -/
def finish (r : Reader) : Except ArgumentError Arguments := do
  let r ← r.settle
  if r.arguments.configDirectory.isSome && r.arguments.noConfig then throw .conflict
  return r.arguments

end Reader

/-- Reads the arguments of the program. -/
def parse (texts : List String) : Except ArgumentError Arguments := do
  (← texts.foldlM Reader.argument {}).finish

end Arguments

end ModalEdit
