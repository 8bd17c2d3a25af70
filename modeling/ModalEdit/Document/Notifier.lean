import ModalEdit.SelectionList

/-!
# Notifiers

A notifier holds listeners and tells them of events, one after the other and each in its place. A
listener answers with a failure or none, and with requests to drop listeners: others, told or not,
or itself. While they are being told, the listeners are lent, and a request that comes then is
deferred until the last of them has answered; at any other time it is granted at once.

A listener may hold requests of its own, which it makes when it is dropped. At that moment the
listeners are lent as well, so these requests are deferred, too; but they come too late for the
telling that drops it and wait for the next one.

What the listeners, events and requests are is left open: `hear` says how a listener takes an event,
`hits` which listeners a request is about, and `held` what a listener asks for when it is dropped.
-/

namespace ModalEdit

/-- What a listener answers to an event. -/
structure Answer (ρ : Type) where
  failure : Option SelectionError := none
  /-- Requests to drop listeners. -/
  drops : List ρ := []
  deriving DecidableEq, Repr, Inhabited

/-- Listeners and the requests to drop some of them. -/
structure Notifier (α ρ : Type) where
  /-- In the order in which they were added. -/
  listeners : List α
  /-- The listeners are being told of an event. -/
  lent : Bool := false
  /-- The requests that wait until the listeners are not lent. -/
  deferred : List ρ := []
  deriving DecidableEq, Repr

/-- A telling under way. -/
structure Telling (α ρ ε : Type) where
  notifier : Notifier α ρ
  /-- The first failure. -/
  failure : Option SelectionError := none
  /-- The listeners that were told, as they were then, and the event. -/
  calls : List (α × ε) := []
  deriving DecidableEq, Repr

section

variable {α ρ ε : Type} (hits : ρ → α → Bool) (held : α → List ρ) (hear : α → ε → α × Answer ρ)

namespace Notifier

/-- Drops the listeners that a request is about, as soon as they are not lent. What those ask for
that are dropped is deferred. -/
def drop (n : Notifier α ρ) (request : ρ) : Notifier α ρ :=
  if n.lent then { n with deferred := n.deferred ++ [request] }
  else
    { n with
      listeners := n.listeners.filter fun l => !hits request l
      deferred := n.deferred ++ (n.listeners.filter (hits request)).flatMap held }

/-- Takes the listeners back and grants what was deferred until now. -/
def settle (n : Notifier α ρ) : Notifier α ρ :=
  n.deferred.foldl (drop hits held) { n with lent := false, deferred := [] }

end Notifier

/-- Tells the listener in one place. -/
def Telling.tell (event : ε) (t : Telling α ρ ε) (place : Nat) : Telling α ρ ε :=
  match t.notifier.listeners[place]? with
  | none => t
  | some l =>
    let (after, answer) := hear l event
    let notifier := { t.notifier with listeners := t.notifier.listeners.set place after }
    { notifier := answer.drops.foldl (Notifier.drop hits held) notifier
      failure := t.failure.or answer.failure
      calls := t.calls ++ [(l, event)] }

/-- Tells every listener of an event, place by place. -/
def Notifier.notify (n : Notifier α ρ) (event : ε) : Telling α ρ ε :=
  let told := (List.range n.listeners.length).foldl (Telling.tell hits held hear event)
    { notifier := { n with lent := true } }
  { told with notifier := told.notifier.settle hits held }

end

end ModalEdit
