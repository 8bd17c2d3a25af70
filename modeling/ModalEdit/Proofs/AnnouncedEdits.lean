import ModalEdit.Proofs.EditedPositions

/-!
# What an edit comes to for the listeners

An edit of a document is announced to all that listen to it, and what they answer changes nothing
about the edit itself: `d.Announces event value text result` says what is left to depend on them.
Insertions and erasures that remove something announce what they do (`edits_are_announced`).
-/

namespace ModalEdit

open Text

namespace Document

/-- A listener that is dropped while nothing is told is dropped at once. -/
theorem audience_unsubscribe (d : Document) (id : Nat) :
    (d.unsubscribe id).audience =
      d.audience.drop (fun request l => request = .numbered l.id) Listener.held (.numbered id) := by
  simp [unsubscribe, Notifier.drop, audience, eq_comm]

/-- **`d.Announces event value text result`** — an edit of the document has this result: the text
and the next timestamp, whoever listens; every listener told once, in order, of the event; `value`,
or the first failure; and the listeners left that nobody has asked to drop, with all requests
granted that waited or came while the listeners were told. What waits then are the subscriptions
that the dropped listeners held, so nothing waits exactly if they held none. -/
structure Announces {α : Type} (d : Document) (event : Event) (value : α) (text : List Char)
    (result : Except SelectionError α × Document) : Prop where
  text : result.2.text = text
  timestamp : result.2.timestamp = d.timestamp + 1
  heard : result.2.heard = d.heard ++ d.listeners.map fun l => (l.id, event)
  answer : result.1 = unlessFailed (d.listeners.findSome? fun l => (l.hear event).2.failure) value
  listeners : result.2.listeners =
    (d.listeners.filter fun l => !l.isAsked (d.audience.requests event)).map fun l =>
      (l.hear event).1
  deferred : result.2.deferred.Perm
    ((d.listeners.filter fun l => l.isAsked (d.audience.requests event)).flatMap fun l =>
      (l.hear event).1.held)
  settled : result.2.deferred = [] ↔
    ∀ l ∈ d.listeners, l.isAsked (d.audience.requests event) → (l.hear event).1.held = []
  audience : result.2.audience = (deliver event d.audience).notifier

theorem audience_record (d : Document) (change : Change) :
    (d.record change).audience = d.audience := by
  unfold record
  split <;> rfl

/-- What makes a change, after it was recorded or not, announces it. -/
theorem announces_apply (d : Document) (change : Change) {α : Type} {value : α}
    {result : Except SelectionError α × Document}
    (hanswer : result.1 = unlessFailed ((d.record change).apply change).1 value)
    (hafter : result.2 = ((d.record change).apply change).2) :
    d.Announces (eventOf d.text change) value (change.applyTo d.text) result := by
  -- hearing an event changes nothing about who is asked to go
  have hasked : ∀ p : Bool → Bool,
      (d.listeners.map fun l => (l.hear (eventOf d.text change)).1).filter (fun l =>
        p (l.isAsked (d.audience.requests (eventOf d.text change)))) =
      (d.listeners.filter fun l =>
        p (l.isAsked (d.audience.requests (eventOf d.text change)))).map fun l =>
          (l.hear (eventOf d.text change)).1 := by
    intro p
    rw [List.filter_map]
    simp only [Function.comp_def, Listener.isAsked_hear]
  have hdeferred : result.2.deferred =
      released (d.audience.requests (eventOf d.text change))
        (d.listeners.map fun l => (l.hear (eventOf d.text change)).1) := by
    rw [hafter, deferred_apply, audience_record, listeners_record, text_record]
  have hreleased : result.2.deferred.Perm
      ((d.listeners.filter fun l =>
        l.isAsked (d.audience.requests (eventOf d.text change))).flatMap fun l =>
          (l.hear (eventOf d.text change)).1.held) := by
    rw [hdeferred]
    refine (Notifier.perm_released _ _ _ _).trans (.of_eq ?_)
    exact (congrArg (List.flatMap Listener.held) (hasked id)).trans (List.flatMap_map ..)
  refine ⟨?_, ?_, ?_, ?_, ?_, hreleased, ?_, ?_⟩
  · rw [hafter, text_apply, text_record]
  · rw [hafter, timestamp_apply, record]
    split <;> rfl
  · rw [hafter, heard_apply, heard_record, listeners_record, text_record]
  · rw [hanswer, failure_apply, listeners_record, text_record]
  · rw [hafter, listeners_apply, audience_record, listeners_record, text_record]
    exact hasked not
  · rw [hdeferred, released, Notifier.released_eq_nil_iff, List.forall_mem_map]
    refine forall₂_congr fun l _ => ?_
    rw [← Listener.isAsked_hear l (eventOf d.text change)]
    rfl
  · rw [hafter, audience_apply, audience_record, text_record]

theorem announces_insert (d : Document) (place : Coord) (added : List Char) :
    let first := offset d.text place
    let text := takeBytes d.text first ++ added ++ dropBytes d.text first
    let stop := coordAt text (first + byteLength added)
    d.Announces (.inserted (coordAt d.text first) stop) stop text (d.insert place added) := by
  refine d.announces_apply (d.insertion place added) ?_ rfl
  rw [insert_fst, text_insert]

theorem announces_erase {d : Document} {start stop : Coord}
    (h : offset d.text start < offset d.text stop) :
    let first := offset d.text start
    let last := offset d.text stop
    d.Announces (.erased (coordAt d.text first) (coordAt d.text last)) ()
      (takeBytes d.text first ++ dropBytes d.text last) (d.erase start stop) := by
  have htext := text_erase h
  rw [erase_snd h, text_apply, text_record] at htext
  have hannounced := d.announces_apply (d.erasure start stop) (erase_fst h) (erase_snd h)
  rwa [eventOf_erasure h, htext] at hannounced

/-- **A subscription that was held** — the first listener drops the second one, once, and that one
holds the subscription of the third. This request comes too late for the edit at which the second
one goes: it waits, so that the third one is still there, hears of the next edit, and goes only
then. -/
theorem held_subscription_waits :
    let first : Observer := .ofState "first"
      (fun done _ => (if done then {} else { drops := ["second"] }, true)) (fun _ => []) false
    let second : Observer := { name := "second", react := fun _ _ => {}, holds := fun _ => [2] }
    let d : Document :=
      { name := "notes", text := ['a']
        listeners :=
          [⟨0, .reacting first⟩, ⟨1, .reacting second⟩, ⟨2, .observer "third" fun _ => {}⟩] }
    let after := (d.insert ⟨0, 0⟩ ['b']).2
    let later := (after.insert ⟨0, 0⟩ ['c']).2
    after.listeners.map (·.id) = [0, 2] ∧ after.deferred = [.numbered 2] ∧
      later.heard.map (·.1) = [0, 1, 2] ++ [0, 2] ∧
      later.listeners.map (·.id) = [0] ∧ later.deferred = [] := by
  decide

end Document

end ModalEdit
