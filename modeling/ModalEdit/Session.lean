import ModalEdit.Arguments
import ModalEdit.Editor.Configuring

/-!
# Sessions

A session opens files in an editor, with the user's config, and one client on
the first file. Then it runs command lines and keys in that client. Problems
with the config are no failures.
-/

namespace ModalEdit

/-- Why a session failed. -/
inductive SessionError where
  | command (error : CommandError)
  | commandLine (line : String) (error : CommandError)
  | keys (error : KeyParseError)
  | unreadable (path : String) (error : FileError)
  | clientGone (name : String)
  deriving DecidableEq, Repr

/-- The wording of an error with that of its cause behind it. -/
def CommandError.trace (error : CommandError) : String :=
  match error with
  | .invalidSelections cause => s!"{error.message}: {cause.message}"
  | error => error.message

/-- The wording shown to users. -/
def SessionError.message : SessionError → String
  | command error => error.trace
  | commandLine line error => s!"command '{line}' failed: {error.trace}"
  | keys error => error.message
  | unreadable path error => s!"cannot read {path}: {error.message}"
  | clientGone name => s!"client '{name}' is gone"

/-- A computation on the editor of a session. -/
abbrev SessionAct (α : Type) := ExceptT SessionError (StateM Editor) α

namespace Session

variable {α : Type}

/-- Runs a computation from an editor. -/
def perform (act : SessionAct α) (e : Editor) : Except SessionError α × Editor :=
  (StateT.run (ExceptT.run act) e).run

/-- Performs an act; `wrap` makes its error one of the session. -/
def lift (wrap : CommandError → SessionError) (act : Act Editor α) : SessionAct α := do
  let (result, e) := act.perform (← get)
  set e
  match result with
  | .ok a => return a
  | .error error => throw (wrap error)

/-- The document that there is without files. -/
def scratchName : String := "*scratch*"

/-- The directory of the config, if one is wanted. -/
def configDirectory (host : Host) (args : Arguments) : Option String :=
  if args.noConfig then none else args.configDirectory.or host.configDirectory

/-- Loads the config and applies it in a context on a document. -/
def loadConfig (args : Arguments) (document : Nat) : SessionAct Unit := do
  let e ← get
  match configDirectory e.host args with
  | none => return
  | some directory =>
    let path := Config.pathIn directory
    let (content, e) := e.readFile path
    set e
    match (Config.report path content).config with
    | none => return
    | some config =>
      let (ctx, e) := e.newContext "config" document none default
      set e
      let _ ← lift .command (Scene.inPassing ctx (Scene.applyConfig config))

/-- Opens a file as a document named after it. A missing file is opened empty, and a document that
is open already is taken as it is. -/
def openFile (path : String) : SessionAct Nat := do
  let e ← get
  match e.documents.get? path with
  | some id => return id
  | none =>
    let (content, e) := e.readFile path
    set e
    match content with
    | .ok text => lift .command (Editor.createDocument Scene.execute path text)
    | .error .notFound => lift .command (Editor.createDocument Scene.execute path "")
    | .error error => throw (.unreadable path error)

/-- Runs an act in the context of a client. -/
def inClient (client : String) (act : Act Scene Unit) : SessionAct Unit :=
  lift .command (Editor.inClient client act)

/-- Puts the cursor of a client where a file argument says. -/
def moveTo (client : String) (document : Nat) (location : FileLocation) : SessionAct Unit := do
  match location.line with
  | none => return
  | some line =>
    let text := ((← get).document document).text
    let target := Text.clamp text ⟨line, location.column.getD 0⟩
    inClient client (Scene.setSelections (.single (.point target)))

/-- Opens what the arguments ask for, and gives the name of the client. -/
def start (args : Arguments) : SessionAct String := do
  let scratch ← lift .command (Editor.createDocument Scene.execute scratchName "")
  loadConfig args scratch
  let documents ← args.files.mapM fun location => openFile location.path
  let (document, location) := (documents.zip args.files).headD (scratch, default)
  let client ← lift .command (Editor.createClient Scene.execute document args.client)
  moveTo client document location
  return client

/-- Presses keys in the client. -/
def pressKeys (client text : String) : SessionAct Unit :=
  match Key.readSequence text with
  | .error error => throw (.keys error)
  | .ok keys => inClient client (Scene.pressAll Scene.execute keys)

/-- Runs the command lines and then the keys, up to the first failure. -/
def run (client : String) (args : Arguments) : SessionAct Unit := do
  args.commands.forM fun line =>
    lift (.commandLine line) (Editor.executeInClient client line)
  match args.keys with
  | some keys => pressKeys client keys
  | none => return

/-- How a session went that could be opened. -/
structure Outcome where
  client : String
  ran : Except SessionError Unit

/-- Opens a session and runs it. -/
def whole (args : Arguments) : SessionAct Outcome := do
  let client ← start args
  let (ran, e) := perform (run client args) (← get)
  set e
  return { client, ran }

/-- The text that the client shows. -/
def clientText (e : Editor) (client : String) : Except SessionError String :=
  match e.clients.context? client with
  | some ctx => .ok (String.ofList (e.document ctx.document).text)
  | none => .error (.clientGone client)

end Session

end ModalEdit
