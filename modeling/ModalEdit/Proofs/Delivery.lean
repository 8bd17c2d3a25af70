import ModalEdit.Document

/-!
# One delivery of an event

What telling every listener of an event comes to. While the listeners are lent nothing but the
deferred requests can change besides the listener that is told, so a telling goes through the places
one by one (`Telling.foldl_tell`) and the requests are granted in the end (`Notifier.notify_eq`):
each listener is told once and in order, whatever the others answer. What is asked for by those that
are dropped then is deferred: it is, in some order, what they hold (`Notifier.perm_released`). From
that follow the listeners, the log and the failure that a change of a document leaves behind.
-/

namespace ModalEdit

section Telling

variable {α ρ ε : Type} (hits : ρ → α → Bool) (held : α → List ρ) (hear : α → ε → α × Answer ρ)

namespace Notifier

/-! ## Granting requests -/

/-- Whether one of some requests is about a listener. -/
def isAsked (requests : List ρ) (l : α) : Bool := requests.any fun request => hits request l

/-- What the listeners ask for that are dropped when requests are granted one after the other. -/
def released : List ρ → List α → List ρ
  | [], _ => []
  | request :: requests, listeners =>
    (listeners.filter (hits request)).flatMap held ++
      released requests (listeners.filter fun l => !hits request l)

/-- While the listeners are lent, requests wait. -/
theorem foldl_drop_lent (requests deferred : List ρ) (listeners : List α) :
    requests.foldl (drop hits held) ⟨listeners, true, deferred⟩ =
      ⟨listeners, true, deferred ++ requests⟩ := by
  induction requests generalizing deferred with
  | nil => simp
  | cons request requests ih =>
    have hstep : drop hits held ⟨listeners, true, deferred⟩ request =
        ⟨listeners, true, deferred ++ [request]⟩ := rfl
    rw [List.foldl_cons, hstep, ih]
    simp

/-- At any other time requests are granted at once, and what is asked for thereby waits. -/
theorem foldl_drop (requests deferred : List ρ) (listeners : List α) :
    requests.foldl (drop hits held) ⟨listeners, false, deferred⟩ =
      ⟨listeners.filter fun l => !isAsked hits requests l, false,
        deferred ++ released hits held requests listeners⟩ := by
  induction requests generalizing listeners deferred with
  | nil =>
    have hall : (listeners.filter fun _ => true) = listeners :=
      List.filter_eq_self.mpr fun _ _ => rfl
    simp [isAsked, released, hall]
  | cons request requests ih =>
    have hstep : drop hits held ⟨listeners, false, deferred⟩ request =
        ⟨listeners.filter fun l => !hits request l, false,
          deferred ++ (listeners.filter (hits request)).flatMap held⟩ := rfl
    rw [List.foldl_cons, hstep, ih, List.filter_filter, released, List.append_assoc]
    simp [isAsked, Bool.and_comm]

/-- What is asked for by those that are dropped is what they hold, whichever request it is that
drops them. -/
theorem perm_released (requests : List ρ) (listeners : List α) :
    (released hits held requests listeners).Perm
      ((listeners.filter (isAsked hits requests)).flatMap held) := by
  induction requests generalizing listeners with
  | nil => simp [released, isAsked]
  | cons request requests ih =>
    have hasked : listeners.filter (isAsked hits (request :: requests)) =
        listeners.filter fun l => hits request l || isAsked hits requests l := rfl
    -- those that the first request is about, and the others
    have hsplit : ((listeners.filter (hits request)) ++
        (listeners.filter fun l => !hits request l).filter (isAsked hits requests)).Perm
        (listeners.filter fun l => hits request l || isAsked hits requests l) := by
      have hboth := List.filter_append_perm (hits request)
        (listeners.filter fun l => hits request l || isAsked hits requests l)
      rw [List.filter_filter, List.filter_filter] at hboth
      refine (List.Perm.of_eq ?_).trans hboth
      rw [List.filter_filter]
      congr 1
      · refine List.filter_congr fun l _ => ?_
        cases hits request l <;> simp
      · refine List.filter_congr fun l _ => ?_
        cases hits request l <;> simp
    rw [released, hasked]
    refine ((ih _).append_left _).trans ?_
    rw [← List.flatMap_append]
    exact hsplit.flatMap_right _

/-- Nothing is asked for exactly if those that are dropped hold nothing. -/
theorem released_eq_nil_iff {requests : List ρ} {listeners : List α} :
    released hits held requests listeners = [] ↔
      ∀ l ∈ listeners, isAsked hits requests l → held l = [] := by
  have hperm := perm_released hits held requests listeners
  constructor
  · intro hnone l hl hasked
    rw [hnone] at hperm
    have hflat := List.nil_perm.mp hperm
    exact List.flatMap_eq_nil_iff.mp hflat l (List.mem_filter.mpr ⟨hl, hasked⟩)
  · intro hheld
    refine List.perm_nil.mp (hperm.trans (.of_eq ?_))
    refine List.flatMap_eq_nil_iff.mpr fun l hl => ?_
    obtain ⟨hl, hasked⟩ := List.mem_filter.mp hl
    exact hheld l hl hasked

end Notifier

/-! ## Telling -/

/-- One listener is told in its place, whatever it answers. -/
theorem Telling.tell_at (event : ε) (told rest : List α) (l : α) (deferred : List ρ)
    (failure : Option SelectionError) (calls : List (α × ε)) :
    tell hits held hear event ⟨⟨told ++ l :: rest, true, deferred⟩, failure, calls⟩ told.length =
      ⟨⟨told ++ (hear l event).1 :: rest, true, deferred ++ (hear l event).2.drops⟩,
        failure.or (hear l event).2.failure, calls ++ [(l, event)]⟩ := by
  simp [tell, Notifier.foldl_drop_lent]

/-- Behind the listeners that were told, the others are told in order. -/
theorem Telling.foldl_tell (event : ε) (told rest : List α) (deferred : List ρ)
    (failure : Option SelectionError) (calls : List (α × ε)) :
    (List.range' told.length rest.length).foldl (tell hits held hear event)
        ⟨⟨told ++ rest, true, deferred⟩, failure, calls⟩ =
      ⟨⟨told ++ rest.map fun l => (hear l event).1, true,
          deferred ++ rest.flatMap fun l => (hear l event).2.drops⟩,
        failure.or (rest.findSome? fun l => (hear l event).2.failure),
        calls ++ rest.map fun l => (l, event)⟩ := by
  induction rest generalizing told deferred failure calls with
  | nil => simp
  | cons l rest ih =>
    have hnext := ih (told ++ [(hear l event).1]) (deferred ++ (hear l event).2.drops)
      (failure.or (hear l event).2.failure) (calls ++ [(l, event)])
    rw [List.length_append, List.length_singleton, List.append_assoc, List.singleton_append] at hnext
    rw [List.length_cons, List.range'_succ, List.foldl_cons, tell_at, hnext]
    cases failure <;> cases hfailure : (hear l event).2.failure <;> simp [hfailure]

/-- The requests that are granted at the end of a telling: those that waited, and those that the
listeners make while they are told. -/
def Notifier.requests (n : Notifier α ρ) (event : ε) : List ρ :=
  n.deferred ++ n.listeners.flatMap fun l => (hear l event).2.drops

/-- **A telling in closed form** — every listener is told once, in order, of the same event; the
failure is the first one; and in the end those are left that no request is about, and deferred is
what is asked for by those that are dropped. -/
theorem Notifier.notify_eq (n : Notifier α ρ) (event : ε) :
    n.notify hits held hear event =
      { notifier :=
          { listeners := (n.listeners.map fun l => (hear l event).1).filter fun l =>
              !isAsked hits (n.requests hear event) l
            deferred := released hits held (n.requests hear event)
              (n.listeners.map fun l => (hear l event).1) }
        failure := n.listeners.findSome? fun l => (hear l event).2.failure
        calls := n.listeners.map fun l => (l, event) } := by
  have htold := Telling.foldl_tell hits held hear event [] n.listeners n.deferred none []
  simp only [List.length_nil, List.nil_append, Option.none_or] at htold
  rw [notify, List.range_eq_range', htold]
  simp only [settle, foldl_drop, List.nil_append, requests]

/-- Each of three listeners asks to drop the next one, and all are told. -/
example :
    let told : Telling Nat Nat Bool :=
      Notifier.notify (· == ·) (fun _ => []) (fun l _ => (l, { drops := [l + 1] }))
        { listeners := [4, 5, 6] } true
    told.calls = [(4, true), (5, true), (6, true)] ∧ told.notifier = { listeners := [4] } := by
  decide

end Telling

/-! ## Observers that do not fail -/

namespace Observer

/-- **`o.Obliging`** — whatever the observer is told from now on, it does not fail. -/
def Obliging (o : Observer) : Prop :=
  ∀ later event, (o.react (o.told ++ later) event).failure = none

/-- An observer that does not fail stays so. -/
theorem Obliging.hear {o : Observer} (h : o.Obliging) (event : Event) :
    (o.hear event).2.failure = none ∧ (o.hear event).1.Obliging := by
  constructor
  · have hnow := h [] event
    rwa [List.append_nil] at hnow
  · intro later next
    show (o.react (o.told ++ [event] ++ later) next).failure = none
    rw [List.append_assoc]
    exact h _ next

/-- With a state, an observer answers as the state says that the events before have led to. -/
theorem hear_ofState {σ : Type} (name : String) (step : σ → Event → Reaction × σ)
    (holds : σ → List Nat) (start : σ) (told : List Event) (event : Event) :
    let state (told : List Event) : σ := told.foldl (fun s event => (step s event).2) start
    let o : Observer := { ofState name step holds start with told := told }
    (o.hear event).2 = (step (state told) event).1 ∧
      (o.hear event).1.held = holds (step (state told) event).2 := by
  refine ⟨rfl, ?_⟩
  simp [Observer.hear, Observer.held, ofState]

end Observer

namespace Listener

@[simp] theorem id_hear (l : Listener) (event : Event) : (l.hear event).1.id = l.id := by
  unfold hear
  split <;> rfl

@[simp] theorem isSome_selections?_hear (l : Listener) (event : Event) :
    (l.hear event).1.selections?.isSome = l.selections?.isSome := by
  obtain ⟨id, role⟩ := l
  cases role <;> rfl

/-- Whether one of some requests is about the listener. -/
def isAsked (requests : List Request) (l : Listener) : Bool := Notifier.isAsked isHit requests l

/-- No request is about a tracker. -/
@[simp] theorem isHit_tracker (request : Request) (id : Nat) (selections : SelectionList) :
    isHit request ⟨id, .tracker selections⟩ = false := by
  cases request <;> rfl

@[simp] theorem isAsked_tracker (requests : List Request) (id : Nat) (selections : SelectionList) :
    isAsked requests ⟨id, .tracker selections⟩ = false := by
  simp [isAsked, Notifier.isAsked]

/-- Which requests are about a listener does not depend on what it is told. -/
theorem isAsked_hear (l : Listener) (event : Event) (requests : List Request) :
    (l.hear event).1.isAsked requests = l.isAsked requests := by
  obtain ⟨id, role⟩ := l
  cases role with
  | tracker selections => rw [isAsked_tracker]; exact isAsked_tracker _ _ _
  | reacting observer => rfl

end Listener

/-- What is asked for by those of some listeners that requests drop. -/
def released (requests : List Request) (listeners : List Listener) : List Request :=
  Notifier.released Listener.isHit Listener.held requests listeners

namespace Audience

/-- The requests that a delivery grants. -/
def requests (audience : Audience) (event : Event) : List Request :=
  Notifier.requests Listener.hear audience event

end Audience

/-- **A delivery in closed form** — every listener hears the event once, in order, whatever the
others answer; the failure is the first one. -/
theorem deliver_eq (event : Event) (audience : Audience) :
    deliver event audience =
      { notifier :=
          { listeners := (audience.listeners.map fun l => (l.hear event).1).filter fun l =>
              !l.isAsked (audience.requests event)
            deferred := released (audience.requests event)
              (audience.listeners.map fun l => (l.hear event).1) }
        failure := audience.listeners.findSome? fun l => (l.hear event).2.failure
        calls := audience.listeners.map fun l => (l, event) } :=
  Notifier.notify_eq Listener.isHit Listener.held Listener.hear audience event

namespace Document

variable (d : Document) (change : Change)

@[simp] theorem heard_apply :
    (d.apply change).2.heard =
      d.heard ++ d.listeners.map fun l => (l.id, eventOf d.text change) := by
  simp [apply, announce, deliver_eq, Telling.log, audience]

theorem failure_apply :
    (d.apply change).1 =
      d.listeners.findSome? fun l => (l.hear (eventOf d.text change)).2.failure := by
  simp [apply, announce, deliver_eq, audience]

/-- The listeners that are left heard the event. -/
theorem listeners_apply :
    (d.apply change).2.listeners =
      (d.listeners.map fun l => (l.hear (eventOf d.text change)).1).filter fun l =>
        !l.isAsked (d.audience.requests (eventOf d.text change)) := by
  simp [apply, announce, deliver_eq, audience]

theorem deferred_apply :
    (d.apply change).2.deferred =
      released (d.audience.requests (eventOf d.text change))
        (d.listeners.map fun l => (l.hear (eventOf d.text change)).1) := by
  simp [apply, announce, deliver_eq, audience]

theorem audience_apply :
    (d.apply change).2.audience = (deliver (eventOf d.text change) d.audience).notifier := by
  rw [deliver_eq, audience, listeners_apply, deferred_apply, audience]

@[simp] theorem nextListener_apply : (d.apply change).2.nextListener = d.nextListener := rfl

@[simp] theorem noUndo_apply : (d.apply change).2.noUndo = d.noUndo := rfl

end Document

end ModalEdit
