import ModalEdit.Host
import ModalEdit.Text.Split

/-!
# File trees

Files held in memory, in the directories that their paths name. Paths are
relative to the root of the tree; `.` and `..` mean what they usually mean, and
nothing is known of what lies outside of the tree.
-/

namespace ModalEdit

/-- Texts of files by path, where a path is the list of its names. -/
structure FileTree where
  files : List (List String × String) := []
  deriving DecidableEq, Repr, Inhabited

namespace FileTree

/-- The names of a path. -/
def names (path : String) : List String := (Text.splitAll '/' path.toList).map String.ofList

/-- The tree with files at the given paths. -/
def ofFiles (files : List (String × String)) : FileTree :=
  ⟨files.map fun (path, text) => (names path, text)⟩

/-- What there is at a place of a tree. -/
inductive Node where
  | file (text : String)
  | directory
  | missing
  deriving DecidableEq, Repr

/-- What there is at the end of the given names. -/
def node (tree : FileTree) (place : List String) : Node :=
  match tree.files.lookup place with
  | some text => .file text
  | none =>
    if place.isEmpty || tree.files.any fun file => place.isPrefixOf file.1 then .directory
    else .missing

/-- The longest name of a file, in bytes. -/
def nameLimit : Nat := 255

/-- The place that a name leads to from another place; `none` is outside of the tree. -/
def step (tree : FileTree) (place : Option (List String)) (name : String) :
    Except FileError (Option (List String)) :=
  match place with
  | none => if ["", ".", ".."].contains name then .ok none else .error .notFound
  | some place =>
    match tree.node place with
    | .file _ => .error .notDirectory
    | .missing => .error .notFound
    | .directory =>
      if name = "" ∨ name = "." then .ok (some place)
      else if name = ".." then .ok (if place.isEmpty then none else some place.dropLast)
      else if nameLimit < name.utf8ByteSize then
        .error (.other "File name too long (os error 36)")
      else .ok (some (place ++ [name]))

/-- Reads the file at a path. -/
def read (tree : FileTree) (path : String) : Except FileError String :=
  if path.toList.contains '\x00' then
    .error (.other "file name contained an unexpected NUL byte")
  else if path.isEmpty || path.startsWith "/" then .error .notFound
  else match (names path).foldlM tree.step (some []) with
    | .error error => .error error
    | .ok none => .error .isDirectory
    | .ok (some place) =>
      match tree.node place with
      | .file text => .ok text
      | .directory => .error .isDirectory
      | .missing => .error .notFound

/-- The machine with these files and no shell. -/
def host (tree : FileTree) : Host where
  readFile := tree.read

end FileTree

end ModalEdit
