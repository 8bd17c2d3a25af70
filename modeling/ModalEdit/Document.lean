import ModalEdit.Document.History
import ModalEdit.Document.Listener
import ModalEdit.ScopeTables
import ModalEdit.Text.Position

/-!
# Documents

A text with its edit history, its listeners and the tables of its scope. Every
change of the text is announced to the listeners before the operation returns;
the change is made even if a listener fails.

Main statements: what an operation does to the text and the timestamp does not
depend on the listeners (`text_apply`, `timestamp_apply`).
-/

namespace ModalEdit

/-- A named text that is being edited. -/
structure Document where
  name : String
  text : List Char
  /-- Number of changes made so far. -/
  timestamp : Nat := 0
  /-- Changes are not recorded. -/
  noUndo : Bool := false
  history : History := {}
  /-- In the order in which they were added. -/
  listeners : List Listener := []
  /-- The requests to drop observers that wait for the next change. -/
  deferred : List Request := []
  /-- The id of the next listener. -/
  nextListener : Nat := 0
  /-- Every telling of a listener so far: its id and the event. -/
  heard : List (Nat × Event) := []
  scopes : ScopeTables := {}

namespace Document

/-- A new document. -/
def ofText (name : String) (text : String) : Document := { name, text := text.toList }

instance : Inhabited Document := ⟨ofText "" ""⟩

/-- Number of steps that a commit has closed and that are not undone. -/
def undoDepth (d : Document) : Nat := d.history.undo.length

/-- The text between two coordinates. -/
def content (d : Document) (a b : Coord) : String := String.ofList (Text.content d.text a b)

/-! ## Listeners -/

/-- Adds a listener and gives its id. -/
def subscribe (d : Document) (role : ListenerRole) : Nat × Document :=
  (d.nextListener, { d with
    listeners := d.listeners ++ [⟨d.nextListener, role⟩]
    nextListener := d.nextListener + 1 })

/-- The listeners of the document, with the requests that wait. -/
def audience (d : Document) : Audience := { listeners := d.listeners, deferred := d.deferred }

/-- Drops a listener. What it asks for in turn is deferred. -/
def unsubscribe (d : Document) (id : Nat) : Document :=
  { d with
    listeners := d.listeners.filter (·.id ≠ id)
    deferred := d.deferred ++ (d.listeners.filter (·.id = id)).flatMap (·.held) }

/-- Adds a tracker of the given selections. -/
def track (d : Document) (selections : SelectionList) : Nat × Document :=
  d.subscribe (.tracker selections)

/-- The selections of a tracker. -/
def tracked? (d : Document) (id : Nat) : Option SelectionList :=
  (d.listeners.find? (·.id = id)).bind (·.selections?)

/-- Gives a tracker other selections, moved onto positions of the text. -/
def assign (d : Document) (id : Nat) (selections : SelectionList) :
    Except SelectionError Document :=
  let clamped := selections.mapCoords (Text.clamp d.text)
  clamped.validate.map fun _ =>
    { d with listeners := d.listeners.map fun l =>
        if l.id = id then { l with role := .tracker clamped } else l }

/-- Tells the listeners of an event; gives their first failure. -/
def announce (d : Document) (event : Event) : Option SelectionError × Document :=
  let delivery := deliver event d.audience
  (delivery.failure,
    { d with
      listeners := delivery.notifier.listeners
      deferred := delivery.notifier.deferred
      heard := d.heard ++ delivery.log })

/-! ## Changes -/

/-- The event of a change to a text. -/
def eventOf (text : List Char) (change : Change) : Event :=
  match change with
  | .insert offset added =>
    .inserted (Text.coordAt text offset)
      (Text.coordAt (change.applyTo text) (offset + Text.byteLength added))
  | .erase offset removed =>
    .erased (Text.coordAt text offset) (Text.coordAt text (offset + Text.byteLength removed))

/-- Makes a change and announces it, without recording it. -/
def apply (d : Document) (change : Change) : Option SelectionError × Document :=
  { d with text := change.applyTo d.text, timestamp := d.timestamp + 1 }.announce
    (eventOf d.text change)

/-- Records a change, unless the document keeps no history. -/
def record (d : Document) (change : Change) : Document :=
  if d.noUndo then d else { d with history := d.history.record change }

/-- The result of an operation, unless a listener failed. -/
def unlessFailed {α : Type} (failure : Option SelectionError) (value : α) :
    Except SelectionError α :=
  match failure with
  | some e => .error e
  | none => .ok value

/-- Inserts a text and gives the position behind it. -/
def insert (d : Document) (place : Coord) (text : List Char) :
    Except SelectionError Coord × Document :=
  let offset := Text.offset d.text place
  let change := Change.insert offset text
  let (failure, d) := (d.record change).apply change
  (unlessFailed failure (Text.coordAt d.text (offset + Text.byteLength text)), d)

/-- Erases the text from `start` to `stop`, if there is any. -/
def erase (d : Document) (start stop : Coord) : Except SelectionError Unit × Document :=
  let first := Text.offset d.text start
  let last := Text.offset d.text stop
  if last ≤ first then (.ok (), d)
  else
    let change := Change.erase first (Text.slice d.text first last)
    let (failure, d) := (d.record change).apply change
    (unlessFailed failure (), d)

/-! ## Undo and redo -/

/-- Closes the pending step. -/
def commit (d : Document) : Document := { d with history := d.history.commit }

/-- Makes changes in order, none of them recorded; gives the first failure. -/
def replay (d : Document) : List Change → Option SelectionError × Document
  | [] => (none, d)
  | change :: rest =>
    let (failure, d) := d.apply change
    let (later, d) := d.replay rest
    (failure.or later, d)

/-- Takes the last step back, closing the pending one first. -/
def undo (d : Document) : Except SelectionError Bool × Document :=
  let d := d.commit
  match d.history.undo with
  | [] => (.ok false, d)
  | step :: rest =>
    let (failure, d) := d.replay (step.map Change.inverse)
    (unlessFailed failure true,
      { d with history := { d.history with undo := rest, redo := step :: d.history.redo } })

/-- Makes the step again that was taken back last. -/
def redo (d : Document) : Except SelectionError Bool × Document :=
  match d.history.redo with
  | [] => (.ok false, d)
  | step :: rest =>
    let (failure, d) := d.replay step.reverse
    (unlessFailed failure true,
      { d with history := { d.history with undo := step :: d.history.undo, redo := rest } })

@[simp] theorem text_apply (d : Document) (change : Change) :
    (d.apply change).2.text = change.applyTo d.text := rfl

@[simp] theorem timestamp_apply (d : Document) (change : Change) :
    (d.apply change).2.timestamp = d.timestamp + 1 := rfl

@[simp] theorem history_apply (d : Document) (change : Change) :
    (d.apply change).2.history = d.history := rfl

end Document

end ModalEdit
