import ModalEdit.Clients
import ModalEdit.Command.Core
import ModalEdit.Host
import ModalEdit.Registers

/-!
# The editor

All state of an editor: its documents, clients, registers, commands and tables.
Documents are kept in a store and are addressed by number, so that contexts can
hold on to a document that has been renamed or closed.
-/

namespace ModalEdit

/-- Builds highlighters from the parameters of `addhl`. -/
inductive HighlighterFactory where
  | pattern
  | group
  | reference
  deriving DecidableEq, Repr

/-- A message for the user. -/
structure StatusMessage where
  face : String
  text : String
  deriving DecidableEq, Repr

/-- What key presses do once mappings are applied. -/
inductive InputMode where
  /-- Editing in normal and insert mode. -/
  | basic
  /-- Shows each key with the mode it was pressed in, and refuses `!`. -/
  | echo
  deriving DecidableEq, Repr

/-- What a command does that matters beyond the context in which it runs. -/
inductive Happening where
  /-- A key took back the last step of a document. -/
  | undone (document : Nat)
  /-- A key made a step of a document again. -/
  | redone (document : Nat)
  /-- Something ran in a draft of a context on a document; the context was in an edition or not. -/
  | drafted (document : Nat) (editing : Bool)
  /-- Something ran in the context of another client. -/
  | visited (client : String)
  /-- A context, with or without a window, renamed its client, which was checked out or not. -/
  | renamed (windowed out : Bool)
  /-- A key left insert mode where it had been left already. -/
  | strayEscape
  /-- An edition ended where none was open. -/
  | strayEnd
  /-- A document for debug output was created; the hooks that ran on it failed or not. -/
  | debugOpened (document : Nat) (failed : Bool)
  /-- A line of debug output was added to a document; its history recorded that or not. -/
  | debugged (document : Nat) (recorded : Bool)
  deriving DecidableEq, Repr

/-- The state of an editor. -/
structure Editor where
  /-- The tables of the global scope. -/
  scopes : ScopeTables := {}
  /-- Every document ever made, in that order. -/
  store : List Document := []
  /-- The open documents by name. -/
  documents : NameMap Nat := { kind := "buffer" }
  clients : Clients := {}
  registers : Registers := {}
  commands : NameMap Command := { kind := "command" }
  factories : NameMap HighlighterFactory := { kind := "highlighter factory" }
  /-- Groups that highlighters can refer to. -/
  definedHighlighters : HighlighterGroup Highlighter := []
  input : InputMode := .basic
  /-- The messages printed so far. -/
  status : List StatusMessage := []
  host : Host := {}
  /-- The scripts run so far. -/
  shellCalls : List ShellCall := []
  /-- The files asked for so far. -/
  fileReads : List String := []
  /-- What commands did so far that matters beyond the context in which they ran. -/
  journal : List Happening := []

namespace Editor

/-- The options that every editor has. -/
def builtinOptions : OptionStore where
  entries :=
    [("tabstop", { value := .int 8 }), ("indentwidth", { value := .int 4 }),
     ("filetype", { value := .str "" })]

/-- The highlighter factories. -/
def builtinFactories : NameMap HighlighterFactory where
  kind := "highlighter factory"
  entries := [("regex", .pattern), ("group", .group), ("ref", .reference)]

/-- A new editor. -/
def new (host : Host) : Editor where
  scopes := { options := builtinOptions }
  commands := Command.coreTable
  factories := builtinFactories
  host := host

/-- The face of messages without a face of their own. -/
def statusFace : String := "StatusLine"

/-- Prints a message with a face. -/
def printWith (e : Editor) (face text : String) : Editor :=
  { e with status := e.status ++ [⟨face, text⟩] }

/-- Prints a message. -/
def print (e : Editor) (text : String) : Editor := e.printWith statusFace text

/-- Adds to the journal. -/
def jot (e : Editor) (happening : Happening) : Editor :=
  { e with journal := e.journal ++ [happening] }

/-- The text of a file. That it was asked for is noted. -/
def readFile (e : Editor) (path : String) : Except FileError String × Editor :=
  (e.host.readFile path, { e with fileReads := e.fileReads ++ [path] })

/-! ## Documents -/

/-- The document with a number. -/
def document (e : Editor) (id : Nat) : Document := e.store.getD id default

/-- Replaces a document. -/
def setDocument (e : Editor) (id : Nat) (d : Document) : Editor :=
  { e with store := e.store.set id d }

/-- Changes a document. -/
def modifyDocument (e : Editor) (id : Nat) (f : Document → Document) : Editor :=
  e.setDocument id (f (e.document id))

/-- The number of the open document with a name. -/
def documentNamed (e : Editor) (name : String) : Except CommandError Nat :=
  match e.documents.find name with
  | .ok id => .ok id
  | .error error => .error (.registry error)

/-- Renames an open document. -/
def renameDocument (e : Editor) (source target : String) : Except CommandError Editor :=
  match e.documents.rename source target with
  | .error error => .error (.registry error)
  | .ok documents =>
    let e := { e with documents }
    (e.documentNamed target).map fun id => e.modifyDocument id fun d => { d with name := target }

/-! ## Contexts -/

/-- A context on a document, with a tracker of its own. -/
def newContext (e : Editor) (name : String) (document : Nat) (window : Option Window)
    (selections : SelectionList) : Context × Editor :=
  let (tracker, d) := (e.document document).track selections
  ({ name, document, tracker, window }, e.setDocument document d)

/-- The selections of a context. -/
def selections (e : Editor) (c : Context) : SelectionList :=
  (e.document c.document).selections c.tracker

/-- A windowless copy of a context. -/
def draft (e : Editor) (c : Context) : Context × Editor :=
  e.newContext c.name c.document none (e.selections c)

/-- Drops the tracker of a context that is no longer needed. -/
def release (e : Editor) (c : Context) : Editor :=
  e.modifyDocument c.document (·.unsubscribe c.tracker)

/-- Moves a context onto another document. -/
def moveContext (e : Editor) (c : Context) (document : Nat) : Context × Editor :=
  let (tracker, d) := (e.document document).track default
  ({ c with document, tracker }, (e.setDocument document d).release c)

/-- Puts the context of a client back into its slot; a context that thereby loses its slot is
dropped. -/
def checkin (e : Editor) (name : String) (c : Context) : Editor :=
  let (dropped, clients) := e.clients.checkin name c
  let e := { e with clients }
  match dropped with
  | some old => e.release old
  | none => e

end Editor

instance : Inhabited Editor := ⟨.new {}⟩

end ModalEdit
