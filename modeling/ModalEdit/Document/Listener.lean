import ModalEdit.Document.Event
import ModalEdit.Document.Notifier

/-!
# Listeners

A listener hears of every edit of a document, right after it was made. One kind
keeps a selection list in step with the text; the other, the observers, only
react. A listener may fail, and it may ask for observers to be dropped. `deliver`
runs one delivery.
-/

namespace ModalEdit

/-- A request to drop observers. -/
inductive Request where
  /-- All observers with that name. -/
  | named (name : String)
  /-- The observer with that id. -/
  | numbered (id : Nat)
  deriving DecidableEq, Repr

/-- A name stands for the observers with that name. -/
instance : Coe String Request := ⟨.named⟩

/-- What a listener answers to an event, with the observers to drop. -/
abbrev Reaction := Answer Request

/-- What reacts to events. What it does depends on all that it was told of so far. -/
structure Observer where
  /-- It can be dropped by this name. -/
  name : String
  /-- The answer to an event, after those that came before it. -/
  react : List Event → Event → Reaction
  /-- The ids of the observers that are dropped with it: it holds their subscriptions. -/
  holds : List Event → List Nat := fun _ => []
  /-- The events it was told of. -/
  told : List Event := []

namespace Observer

/-- An observer with a state, which an event leads to the next one. -/
def ofState {σ : Type} (name : String) (step : σ → Event → Reaction × σ) (holds : σ → List Nat)
    (start : σ) : Observer :=
  let state (told : List Event) : σ := told.foldl (fun s event => (step s event).2) start
  { name
    react := fun told event => (step (state told) event).1
    holds := fun told => holds (state told) }

/-- The observer after an event, and its answer. -/
def hear (o : Observer) (event : Event) : Observer × Reaction :=
  ({ o with told := o.told ++ [event] }, o.react o.told event)

/-- The observers that are dropped with it now. -/
def held (o : Observer) : List Nat := o.holds o.told

end Observer

/-- What a listener is there for. -/
inductive ListenerRole where
  /-- Keeps selections in step with the text. -/
  | tracker (selections : SelectionList)
  /-- Reacts to events; it can be dropped on request. -/
  | reacting (observer : Observer)

/-- An observer without a state, which holds no subscriptions. -/
def ListenerRole.observer (name : String) (react : Event → Reaction) : ListenerRole :=
  .reacting { name, react := fun _ => react }

/-- A listener of a document. -/
structure Listener where
  /-- Differs from that of every other listener the document ever had. -/
  id : Nat
  role : ListenerRole

namespace Listener

/-- The selections of a tracker. -/
def selections? (l : Listener) : Option SelectionList :=
  match l.role with
  | .tracker selections => some selections
  | .reacting _ => none

/-- The listener after an event, and its answer. -/
def hear (l : Listener) (event : Event) : Listener × Reaction :=
  match l.role with
  | .tracker selections =>
    let moved := selections.carry event
    ({ l with role := .tracker moved },
      { failure := match moved.validate with
        | .ok _ => none
        | .error e => some e })
  | .reacting observer =>
    let (after, reaction) := observer.hear event
    ({ l with role := .reacting after }, reaction)

/-- Whether the listener is an observer with one of the names. -/
def isNamed (l : Listener) (names : List String) : Bool :=
  match l.role with
  | .tracker _ => false
  | .reacting observer => names.contains observer.name

/-- Whether a request to drop observers is about the listener. -/
def isHit (request : Request) (l : Listener) : Bool :=
  match request with
  | .named name => l.isNamed [name]
  | .numbered id => l.selections?.isNone && l.id == id

/-- What the listener asks for when it is dropped. -/
def held (l : Listener) : List Request :=
  match l.role with
  | .tracker _ => []
  | .reacting observer => observer.held.map .numbered

end Listener

/-- The listeners of a document, and the requests that wait for the next delivery. -/
abbrev Audience := Notifier Listener Request

/-- Tells every listener of an event, in order. -/
def deliver (event : Event) (audience : Audience) : Telling Listener Request Event :=
  audience.notify Listener.isHit Listener.held Listener.hear event

/-- The ids of the listeners that were told, in order, and what they were told. -/
def Telling.log (t : Telling Listener Request Event) : List (Nat × Event) :=
  t.calls.map fun call => (call.1.id, call.2)

end ModalEdit
