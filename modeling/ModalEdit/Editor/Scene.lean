import ModalEdit.Editor
import ModalEdit.Environment
import ModalEdit.Scope

/-!
# Scenes and acts

A scene is an editor with the context that a command works on. An act is a
computation on a state that can fail with a command error; what it did before it
failed stays done.
-/

namespace ModalEdit

/-- A computation that changes a state of type `σ` and can fail. -/
abbrev Act (σ α : Type) := ExceptT CommandError (StateM σ) α

namespace Act

variable {σ α : Type}

/-- Runs an act from a state. -/
def perform (act : Act σ α) (s : σ) : Except CommandError α × σ :=
  (StateT.run (ExceptT.run act) s).run

/-- Runs an act and gives its result instead of failing. -/
def attempt (act : Act σ α) : Act σ (Except CommandError α) := ExceptT.lift (ExceptT.run act)

/-- Fails if a result is an error. -/
def ofExcept (result : Except CommandError α) : Act σ α :=
  match result with
  | .ok a => pure a
  | .error e => throw e

/-- Fails if a table operation failed. -/
def ofRegistry (result : Except RegistryError α) : Act σ α :=
  match result with
  | .ok a => pure a
  | .error e => throw (.registry e)

end Act

/-- An editor and the context that a command works on. -/
structure Scene where
  editor : Editor
  context : Context

/-- Runs a command line in an environment. -/
abbrev Runner := Environment → String → Act Scene Unit

namespace Scene

/-- The document of the context. -/
def document (s : Scene) : Document := s.editor.document s.context.document

/-- The selections of the context. -/
def selections (s : Scene) : SelectionList := s.editor.selections s.context

/-- The text covered by each selection. -/
def selectedTexts (s : Scene) : List String := s.document.selectedTexts s.context.tracker

/-- The texts of a register as seen from the context. -/
def register (s : Scene) (name : Char) : List String :=
  if name = Registers.documentName then [s.document.name]
  else if name = Registers.selection then s.selectedTexts
  else (s.editor.registers.get? name).getD []

/-- The first text of a register; empty if it has none. -/
def registerText (s : Scene) (name : Char) : String := (s.register name).headD ""

/-- Changes the context. -/
def modifyContext (f : Context → Context) : Act Scene Unit :=
  modify fun s => { s with context := f s.context }

/-- Changes the editor. -/
def modifyEditor (f : Editor → Editor) : Act Scene Unit :=
  modify fun s => { s with editor := f s.editor }

/-- Prints a message. -/
def print (text : String) : Act Scene Unit := modifyEditor (·.print text)

/-- Runs an act on the editor alone. -/
def onEditor {α : Type} (act : Act Editor α) : Act Scene α := do
  let s ← get
  let (result, editor) := act.perform s.editor
  set { s with editor }
  Act.ofExcept result

/-- Runs an edit of the document of the context. -/
def edit {α : Type} (f : Document → Except SelectionError α × Document) : Act Scene α := do
  let s ← get
  let (result, d) := f s.document
  set { s with editor := s.editor.setDocument s.context.document d }
  match result with
  | .ok a => pure a
  | .error e => throw (.invalidSelections e)

/-- Runs an act in a context that is dropped afterwards. -/
def inPassing {α : Type} (ctx : Context) (act : Act Scene α) : Act Editor α := do
  let (result, s) := act.perform ⟨← get, ctx⟩
  set (s.editor.release s.context)
  Act.ofExcept result

/-! ## Acts of a context -/

/-- Gives the context other selections. -/
def setSelections (selections : SelectionList) : Act Scene Unit := do
  let s ← get
  match s.document.assign s.context.tracker selections with
  | .ok d => set { s with editor := s.editor.setDocument s.context.document d }
  | .error e => throw (.invalidSelections e)

/-- Gives the context the listed selections, one of which is the main one. -/
def select (selections : List Selection) (main : Nat) : Act Scene Unit :=
  match SelectionList.ofList? selections main with
  | .ok l => setSelections l
  | .error e => throw (.invalidSelections e)

/-- Changes the input mode. -/
def setMode (mode : KeymapMode) : Act Scene Unit := modifyContext fun c => { c with mode }

/-- Leaves it to other contexts to close undo steps. -/
def disableUndo : Act Scene Unit := modifyContext fun c => { c with undoEnabled := false }

/-- Moves the context onto an open document. -/
def changeDocument (name : String) : Act Scene Unit := do
  let s ← get
  let id ← Act.ofExcept (s.editor.documentNamed name)
  let (context, editor) := s.editor.moveContext s.context id
  set (Scene.mk editor context)

/-- The window of the context, which must have one. -/
def requireWindow : Act Scene Window := do
  let s ← get
  match s.context.window with
  | some w => return w
  | none => throw (.failed s!"context '{s.context.name}' has no window")

/-- Notes that the window was drawn when its document had a timestamp. -/
def markDrawn (timestamp : Nat) : Act Scene Unit := do
  let w ← requireWindow
  modifyContext fun c => { c with window := some { w with timestamp := some timestamp } }

/-- Begins an edition. -/
def beginEdition : Act Scene Unit :=
  modifyContext fun c => { c with editionLevel := c.editionLevel + 1 }

/-- Ends an edition, which should be open. The end of the outermost one closes the undo step. -/
def endEdition : Act Scene Unit := do
  if (← get).context.editionLevel = 0 then modifyEditor (·.jot .strayEnd)
  modifyContext fun c => { c with editionLevel := c.editionLevel - 1 }
  let s ← get
  if s.context.editionLevel = 0 ∧ s.context.undoEnabled then
    set { s with editor := s.editor.modifyDocument s.context.document (·.commit) }

/-- Sets a register. -/
def setRegister (name : Char) (values : List String) : Act Scene Unit := do
  let registers ← Act.ofExcept ((← get).editor.registers.set name values)
  modifyEditor fun e => { e with registers }

/-- Inserts texts at the selections. -/
def insert (texts : List String) (position : InsertPosition) : Act Scene Unit := do
  let s ← get
  edit (·.insertAll s.context.tracker texts position)

/-- Erases what is selected. -/
def erase : Act Scene Unit := do
  let s ← get
  edit (·.eraseAll s.context.tracker)

/-- Erases the character before each selection. -/
def eraseBefore : Act Scene Unit := do
  let s ← get
  edit (·.eraseBeforeAll s.context.tracker)

/-! ## Tables of scopes -/

/-- Where the tables of a scope are. -/
inductive Site where
  | editor
  | document (id : Nat)
  | window
  deriving DecidableEq, Repr

/-- Where the tables of a scope are as seen from the context. -/
def site (s : Scene) : Scope → Except CommandError Site
  | .global => .ok .editor
  | .buffer => .ok (.document s.context.document)
  | .window =>
    if s.context.window.isSome then .ok .window else .error (.failed "no window in context")
  | .namedBuffer name => (s.editor.documentNamed name).map .document

/-- The tables at a place. -/
def tablesAt (s : Scene) : Site → ScopeTables
  | .editor => s.editor.scopes
  | .document id => (s.editor.document id).scopes
  | .window => (s.context.window.map (·.scopes)).getD {}

/-- Replaces the tables at a place. -/
def setTablesAt (s : Scene) (place : Site) (tables : ScopeTables) : Scene :=
  match place with
  | .editor => { s with editor := { s.editor with scopes := tables } }
  | .document id =>
    { s with editor := s.editor.modifyDocument id fun d => { d with scopes := tables } }
  | .window =>
    { s with context := { s.context with
        window := s.context.window.map fun w => { w with scopes := tables } } }

/-- The tables of a scope. -/
def tables (scope : Scope) : Act Scene ScopeTables := do
  let s ← get
  return s.tablesAt (← Act.ofExcept (s.site scope))

/-- Changes the tables of a scope. -/
def updateTables {α : Type} (scope : Scope)
    (f : ScopeTables → Except RegistryError (α × ScopeTables)) : Act Scene α := do
  let s ← get
  let place ← Act.ofExcept (s.site scope)
  let (result, tables) ← Act.ofRegistry (f (s.tablesAt place))
  set (s.setTablesAt place tables)
  return result

/-- Removes an option from a scope and gives its value there. -/
def unsetOption (scope : Scope) (name : String) : Act Scene (Option OptionValue) :=
  updateTables scope fun tables =>
    .ok (tables.options.get? name, { tables with options := tables.options.unset name })

/-- The tables that the context sees, the global ones first. -/
def visibleTables (s : Scene) : List ScopeTables :=
  [s.editor.scopes, s.document.scopes] ++ (s.context.window.map (·.scopes)).toList

/-- The value of an option: that of the window, else of the document, else the global one. -/
def option? (s : Scene) (name : String) : Option OptionValue :=
  OptionStore.resolve (s.visibleTables.reverse.map (·.options)) name

/-- The value that an option would have in a scope that holds none itself. -/
def inheritedOption? (s : Scene) (scope : Scope) (name : String) : Option OptionValue :=
  match scope with
  | .global => none
  | .buffer | .namedBuffer _ => s.editor.scopes.options.get? name
  | .window =>
    OptionStore.resolve [s.document.scopes.options, s.editor.scopes.options] name

end Scene

end ModalEdit
