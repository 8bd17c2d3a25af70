import ModalEdit.CommandError

/-!
# The host

What the editor asks of the machine it runs on: the texts of files and the
outputs of shell scripts. The editor records what it asked for. The machine also
bounds how deep command lines may run one another.
-/

namespace ModalEdit

/-- Why a file cannot be read. -/
inductive FileError where
  | notFound
  | isDirectory
  /-- A part of the path that should be a directory is not one. -/
  | notDirectory
  /-- The bytes of the file are no text. -/
  | notText
  | other (message : String)
  deriving DecidableEq, Repr

/-- The wording shown to users. -/
def FileError.message : FileError → String
  | .notFound => "No such file or directory (os error 2)"
  | .isDirectory => "Is a directory (os error 21)"
  | .notDirectory => "Not a directory (os error 20)"
  | .notText => "stream did not contain valid UTF-8"
  | .other message => message

/-- Whether there is a file that could not be read, rather than none. -/
def FileError.isFile : FileError → Bool
  | .notText => true
  | .notFound | .isDirectory | .notDirectory | .other _ => false

/-- A script with its parameters and the variables exported to it. -/
structure ShellCall where
  script : String
  params : List String
  vars : List (String × String)
  deriving DecidableEq, Repr

/-- The machine that the editor runs on. -/
structure Host where
  /-- The text of a file. -/
  readFile : String → Except FileError String := fun _ => .error .notFound
  /-- The directory to look for a config in, if there is one. -/
  configDirectory : Option String := none
  /-- The output of a script, if there is a shell. -/
  shell : Option (ShellCall → Except CommandError String) := none
  /-- How deep command lines may nest before there is no room left for another one. -/
  lineDepth : Nat := 1000

instance : Inhabited Host := ⟨{}⟩

end ModalEdit
