import ModalEdit.Editor.Hooks

/-!
# Documents and clients come and go

Opening and closing documents and clients fires events. The hooks run in a
context on the document concerned.
-/

namespace ModalEdit.Editor

/-- The name of the document for debug output. -/
def debugName : String := "*debug*"

/-- Fires an event in a context on a document that exists only for that. -/
def fire (run : Runner) (name : String) (document : Nat) (event param : String) :
    Act Editor Unit := do
  let (ctx, e) := (← get).newContext name document none default
  set e
  Scene.inPassing ctx (Scene.runHook run event param)

/-- Opens a document and fires `BufCreate`. -/
def createDocument (run : Runner) (name text : String) : Act Editor Nat := do
  let e ← get
  let id := e.store.length
  let documents ← Act.ofRegistry (e.documents.insert name id)
  set { e with documents, store := e.store ++ [Document.ofText name text] }
  fire run name id "BufCreate" name
  return id

/-- Fires `BufClose` and closes the document with that name. -/
def closeDocument (run : Runner) (name : String) : Act Editor Unit := do
  let id ← Act.ofExcept ((← get).documentNamed name)
  fire run name id "BufClose" name
  modify fun e => { e with documents := e.documents.erase name }

/-- The name for a new client: a given one, which must be free, or a generated one. -/
def clientName (name : Option String) : Act Editor String := do
  let e ← get
  match name with
  | some name =>
    if e.clients.slots.contains name then throw (.registry (e.clients.slots.duplicate name))
    return name
  | none =>
    let (name, clients) := e.clients.generateName
    set { e with clients }
    return name

/-- Adds a client; its context is dropped if the name is taken. -/
def addClient (ctx : Context) : Act Editor Unit := do
  let e ← get
  match e.clients.add ctx with
  | .ok clients => set { e with clients }
  | .error error =>
    set (e.release ctx)
    throw error

/-- Opens a client on a document, fires `WinCreate` in its context, and gives its name. -/
def createClient (run : Runner) (document : Nat) (name : Option String) : Act Editor String := do
  let name ← clientName name
  let documentName := ((← get).document document).name
  let (ctx, e) := (← get).newContext name document (some {}) default
  let (result, s) := (Scene.runHook run "WinCreate" documentName).perform ⟨e, ctx⟩
  match result with
  | .ok _ =>
    set s.editor
    addClient s.context
    return name
  | .error error =>
    set (s.editor.release s.context)
    throw error

/-- Renames a client. -/
def renameClient (source target : String) : Act Editor Unit := do
  let clients ← Act.ofExcept ((← get).clients.rename source target)
  modify fun e => { e with clients }

/-- Removes a client and gives the name of its context, unless that is checked out. -/
def removeClient (name : String) : Act Editor (Option String) := do
  let e ← get
  let removed := e.clients.context? name
  let after := { e with clients := e.clients.remove name }
  set (removed.elim after after.release)
  return removed.map (·.name)

/-- Runs an edit of an open document. -/
def edit {α : Type} (name : String) (f : Document → Except SelectionError α × Document) :
    Act Editor α := do
  let e ← get
  let id ← Act.ofExcept (e.documentNamed name)
  let (result, d) := f (e.document id)
  set (e.setDocument id d)
  match result with
  | .ok a => return a
  | .error error => throw (.invalidSelections error)

/-- Sets a register. -/
def setRegister (name : Char) (values : List String) : Act Editor Unit := do
  let registers ← Act.ofExcept ((← get).registers.set name values)
  modify fun e => { e with registers }

/-- The number of the document for debug output, which keeps no history once it was created. -/
def debugDocument (run : Runner) : Act Editor Nat := do
  let e ← get
  match e.documents.get? debugName with
  | some id => return id
  | none =>
    match ← (createDocument run debugName "").attempt with
    | .ok id =>
      modify fun e =>
        (e.modifyDocument id fun d => { d with noUndo := true }).jot (.debugOpened id false)
      return id
    | .error error =>
      modify (·.jot (.debugOpened e.store.length true))
      throw error

/-- Adds a line to the document for debug output. -/
def writeDebug (run : Runner) (text : String) : Act Editor Unit := do
  let id ← debugDocument run
  let e ← get
  let d := e.document id
  let (result, after) := d.insertText (Text.endCoord d.text) (text ++ "\n").toList
  set ((e.setDocument id after).jot (.debugged id (after.history ≠ d.history)))
  match result with
  | .ok _ => return
  | .error error => throw (.invalidSelections error)

end ModalEdit.Editor
