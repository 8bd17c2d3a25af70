import ModalEdit.Proofs.CarriedSlots
import ModalEdit.Proofs.EditSteps

/-!
# Who listens to a document

The listeners of a document hear every change, and an observer may ask for others to be dropped.
`hearing` says what is left of listeners that have heard a series of events, and
`d.Hears tracker events e` that nothing else has become of the listeners of a document: one tracker
is followed exactly, of the other trackers only that they are there.

While something is done, further trackers may come and go. Those that came are gone without a trace
when they are dropped (`Hears.without`), since a tracker asks for nothing.
-/

namespace ModalEdit

/-! ## Listeners that have heard events -/

/-- What is left of an audience that has heard events, in order. -/
def hearing (events : List Event) (audience : Audience) : Audience :=
  events.foldl (fun told event => (deliver event told).notifier) audience

@[simp] theorem hearing_cons (event : Event) (events : List Event) (audience : Audience) :
    hearing (event :: events) audience = hearing events (deliver event audience).notifier := rfl

theorem hearing_append (events later : List Event) (audience : Audience) :
    hearing (events ++ later) audience = hearing later (hearing events audience) :=
  List.foldl_append

theorem listeners_deliver (event : Event) (audience : Audience) :
    (deliver event audience).notifier.listeners =
      (audience.listeners.map fun l => (l.hear event).1).filter fun l =>
        !l.isAsked (audience.requests event) := by
  rw [deliver_eq]

theorem deferred_deliver (event : Event) (audience : Audience) :
    (deliver event audience).notifier.deferred =
      released (audience.requests event) (audience.listeners.map fun l => (l.hear event).1) := by
  rw [deliver_eq]

/-- Who is left was there before. -/
theorem ids_hearing_sublist (events : List Event) (audience : Audience) :
    ((hearing events audience).listeners.map (·.id)).Sublist (audience.listeners.map (·.id)) := by
  induction events generalizing audience with
  | nil => exact .refl _
  | cons event events ih =>
    rw [hearing_cons]
    refine (ih _).trans ?_
    have htold : (audience.listeners.map fun l => (l.hear event).1).map (·.id) =
        audience.listeners.map (·.id) := by
      rw [List.map_map]
      exact List.map_congr_left fun l _ => l.id_hear event
    rw [listeners_deliver, ← htold]
    exact List.filter_sublist.map _

/-- A tracker is not dropped on request, and holds nothing. -/
theorem released_concat_tracker (requests : List Request) (listeners : List Listener) (id : Nat)
    (selections : SelectionList) :
    released requests (listeners ++ [⟨id, .tracker selections⟩]) = released requests listeners := by
  induction requests generalizing listeners with
  | nil => rfl
  | cons request requests ih =>
    have hspared : [⟨id, .tracker selections⟩].filter (Listener.isHit request) = [] := by simp
    have hkept : [⟨id, .tracker selections⟩].filter (fun l => !Listener.isHit request l) =
        [⟨id, .tracker selections⟩] := by simp
    show _ ++ released requests _ = _ ++ released requests _
    rw [List.filter_append, List.filter_append, hspared, hkept, List.append_nil, ih]

/-- The audience with a tracker behind its listeners. -/
def Audience.withTracker (audience : Audience) (id : Nat) (selections : SelectionList) : Audience :=
  { audience with listeners := audience.listeners ++ [⟨id, .tracker selections⟩] }

/-- A tracker asks for nothing, so it does not matter to the others that it is there. -/
theorem hearing_withTracker (events : List Event) (audience : Audience) (id : Nat)
    (selections : SelectionList) :
    hearing events (audience.withTracker id selections) =
      (hearing events audience).withTracker id (selections.follow events) := by
  induction events generalizing audience selections with
  | nil => rfl
  | cons event events ih =>
    have hrequests : (audience.withTracker id selections).requests event =
        audience.requests event := by
      simp [Audience.requests, Notifier.requests, Audience.withTracker, Listener.hear]
    have hstep : (deliver event (audience.withTracker id selections)).notifier =
        Audience.withTracker (deliver event audience).notifier id (selections.carry event) := by
      rw [deliver_eq, deliver_eq, hrequests]
      simp [Audience.withTracker, Listener.hear, released_concat_tracker]
    rw [hearing_cons, hearing_cons, hstep, ih]
    rfl

/-- A tracker follows the events that it hears. -/
theorem mem_hearing (audience : Audience) {id : Nat} {selections : SelectionList}
    (h : ⟨id, .tracker selections⟩ ∈ audience.listeners) (events : List Event) :
    ⟨id, .tracker (selections.follow events)⟩ ∈ (hearing events audience).listeners := by
  induction events generalizing audience selections with
  | nil => exact h
  | cons event events ih =>
    rw [hearing_cons]
    refine ih _ ?_
    rw [listeners_deliver, List.mem_filter, List.mem_map]
    exact ⟨⟨_, h, rfl⟩, by simp⟩

/-- Who is left is what it was, a tracker or an observer. -/
theorem exists_of_mem_hearing {events : List Event} {audience : Audience} {l : Listener}
    (h : l ∈ (hearing events audience).listeners) :
    ∃ old ∈ audience.listeners,
      old.id = l.id ∧ old.selections?.isSome = l.selections?.isSome := by
  induction events generalizing audience with
  | nil => exact ⟨l, h, rfl, rfl⟩
  | cons event events ih =>
    rw [hearing_cons] at h
    obtain ⟨told, htold, hid, hrole⟩ := ih h
    rw [listeners_deliver] at htold
    obtain ⟨old, hold, rfl⟩ := List.mem_map.mp (List.mem_filter.mp htold).1
    exact ⟨old, hold, (old.id_hear event).symm.trans hid,
      (old.isSome_selections?_hear event).symm.trans hrole⟩

/-! ## Listeners that are alike -/

/-- **`l.Alike tracker m`** — the listeners are the same, or they are the same tracker, but not the
one that is followed, with other selections. -/
def Listener.Alike (tracker : Nat) (l m : Listener) : Prop :=
  m.id = l.id ∧ (m = l ∨ l.id ≠ tracker ∧ l.selections?.isSome ∧ m.selections?.isSome)

namespace Listener

variable {tracker : Nat} {l m n : Listener}

theorem alike_refl (tracker : Nat) (l : Listener) : l.Alike tracker l := ⟨rfl, .inl rfl⟩

theorem Alike.trans (h : l.Alike tracker m) (h' : m.Alike tracker n) : l.Alike tracker n := by
  refine ⟨h'.1.trans h.1, ?_⟩
  rcases h.2 with rfl | ⟨hne, hl, hm⟩
  · exact h'.2
  · rcases h'.2 with rfl | ⟨-, -, hn⟩
    · exact .inr ⟨hne, hl, hm⟩
    · exact .inr ⟨hne, hl, hn⟩

/-- A tracker, told by its answers. -/
theorem exists_tracker (h : l.selections?.isSome) : ∃ selections, l = ⟨l.id, .tracker selections⟩ := by
  obtain ⟨id, role⟩ := l
  cases role with
  | tracker selections => exact ⟨selections, rfl⟩
  | reacting observer => cases h

/-- Listeners that are alike answer alike, and stay so. -/
theorem Alike.hear (h : l.Alike tracker m) (event : Event) :
    (l.hear event).1.Alike tracker (m.hear event).1 ∧
      (m.hear event).2.drops = (l.hear event).2.drops := by
  rcases h with ⟨hid, rfl | ⟨hne, hl, hm⟩⟩
  · exact ⟨alike_refl _ _, rfl⟩
  · obtain ⟨held, hl⟩ := exists_tracker hl
    obtain ⟨held', hm⟩ := exists_tracker hm
    rw [hl, hm]
    exact ⟨⟨hid, .inr ⟨hne, rfl, rfl⟩⟩, rfl⟩

/-- A request is about both or about none, and both hold the same. -/
theorem Alike.isHit_eq (h : l.Alike tracker m) (request : Request) :
    m.isHit request = l.isHit request ∧ m.held = l.held := by
  rcases h with ⟨-, rfl | ⟨-, hl, hm⟩⟩
  · exact ⟨rfl, rfl⟩
  · obtain ⟨selections, hl⟩ := exists_tracker hl
    obtain ⟨selections', hm⟩ := exists_tracker hm
    rw [hl, hm, isHit_tracker, isHit_tracker]
    exact ⟨rfl, rfl⟩

end Listener

section Alike

variable {tracker : Nat} {listeners others : List Listener} {audience audience' : Audience}

theorem forall₂_alike_refl (tracker : Nat) (listeners : List Listener) :
    List.Forall₂ (Listener.Alike tracker) listeners listeners :=
  List.forall₂_same.mpr fun l _ => l.alike_refl tracker

theorem ids_eq_of_alike (h : List.Forall₂ (Listener.Alike tracker) listeners others) :
    others.map (·.id) = listeners.map (·.id) := by
  induction h with
  | nil => rfl
  | cons hab _ ih => rw [List.map_cons, List.map_cons, hab.1, ih]

theorem flatMap_held_of_alike (h : List.Forall₂ (Listener.Alike tracker) listeners others) :
    others.flatMap Listener.held = listeners.flatMap Listener.held := by
  induction h with
  | nil => rfl
  | cons hab _ ih =>
    rw [List.flatMap_cons, List.flatMap_cons, (hab.isHit_eq (.numbered 0)).2, ih]

theorem released_eq_of_alike (h : List.Forall₂ (Listener.Alike tracker) listeners others)
    (requests : List Request) : released requests others = released requests listeners := by
  induction requests generalizing listeners others with
  | nil => rfl
  | cons request requests ih =>
    have hasked := List.rel_filter (p := Listener.isHit request) (q := Listener.isHit request)
      (fun _ _ hlm => by dsimp only; rw [(hlm.isHit_eq request).1]) h
    have hrest := List.rel_filter (p := fun l => !Listener.isHit request l)
      (q := fun l => !Listener.isHit request l)
      (fun _ _ hlm => by dsimp only; rw [(hlm.isHit_eq request).1]) h
    show _ ++ released requests _ = _ ++ released requests _
    rw [flatMap_held_of_alike hasked, ih hrest]

/-- **`audience.Alike tracker audience'`** — the listeners are alike, and the same requests wait. -/
structure Audience.Alike (tracker : Nat) (audience audience' : Audience) : Prop where
  listeners : List.Forall₂ (Listener.Alike tracker) audience.listeners audience'.listeners
  deferred : audience'.deferred = audience.deferred

theorem Audience.alike_refl (tracker : Nat) (audience : Audience) :
    audience.Alike tracker audience :=
  ⟨forall₂_alike_refl _ _, rfl⟩

theorem Audience.Alike.trans {audience'' : Audience} (h : audience.Alike tracker audience')
    (h' : audience'.Alike tracker audience'') : audience.Alike tracker audience'' :=
  ⟨forall₂_comp h.listeners h'.listeners fun _ _ _ => .trans, h'.deferred.trans h.deferred⟩

/-- One event leaves alike what was alike. -/
theorem Audience.Alike.deliver (h : audience.Alike tracker audience') (event : Event) :
    Audience.Alike tracker (deliver event audience).notifier (deliver event audience').notifier := by
  have hdrops : ∀ {listeners others : List Listener},
      List.Forall₂ (Listener.Alike tracker) listeners others →
      others.flatMap (fun l => (l.hear event).2.drops) =
        listeners.flatMap fun l => (l.hear event).2.drops := by
    intro listeners others h
    induction h with
    | nil => rfl
    | cons hab _ ih => rw [List.flatMap_cons, List.flatMap_cons, (hab.hear event).2, ih]
  have hrequests : audience'.requests event = audience.requests event := by
    show _ ++ _ = _ ++ _
    rw [h.deferred, hdrops h.listeners]
  have htold : List.Forall₂ (Listener.Alike tracker)
      (audience.listeners.map fun l => (l.hear event).1)
      (audience'.listeners.map fun l => (l.hear event).1) := by
    rw [List.forall₂_map_left_iff, List.forall₂_map_right_iff]
    exact h.listeners.imp fun _ _ hlm => (hlm.hear event).1
  constructor
  · rw [listeners_deliver, listeners_deliver, hrequests]
    refine List.rel_filter (R := Listener.Alike tracker) (fun l m hlm => ?_) htold
    have hhits : ∀ request, m.isHit request = l.isHit request := fun request =>
      (hlm.isHit_eq request).1
    simp only [Listener.isAsked, Notifier.isAsked, hhits]
  · rw [deferred_deliver, deferred_deliver, hrequests, released_eq_of_alike htold]

theorem Audience.Alike.hearing (h : audience.Alike tracker audience') (events : List Event) :
    Audience.Alike tracker (hearing events audience) (hearing events audience') := by
  induction events generalizing audience audience' with
  | nil => exact h
  | cons event events ih => exact ih (h.deliver event)

end Alike

namespace Document

/-! ## What the listeners of a document have heard -/

/-- What a listener was told so far. -/
def toldTo (d : Document) (id : Nat) : List Event :=
  (d.heard.filter fun telling => telling.1 = id).map (·.2)

/-- **`d.Listed`** — the listeners have ids of their own, all of them issued. -/
structure Listed (d : Document) : Prop where
  distinct : (d.listeners.map (·.id)).Nodup
  issued : ∀ l ∈ d.listeners, l.id < d.nextListener

/-- **`d.Lends id`** — the id was issued, and who listens under it is a tracker. -/
structure Lends (d : Document) (id : Nat) : Prop where
  issued : id < d.nextListener
  isTracker : ∀ l ∈ d.listeners, l.id = id → l.selections?.isSome

/-- **`d.Hears tracker events e`** — from `d` to `e` the listeners have heard of `events`, which are
all the changes that were made, and nothing else has become of them: one tracker is followed
exactly, the other trackers may have been given other selections. -/
structure Hears (tracker : Nat) (d : Document) (events : List Event) (e : Document) : Prop where
  counted : d.nextListener ≤ e.nextListener
  timestamp : e.timestamp = d.timestamp + events.length
  told : e.toldTo tracker = d.toldTo tracker ++ events
  audience : Audience.Alike tracker (hearing events d.audience) e.audience

variable {d e e' : Document} {tracker : Nat} {events later : List Event}

/-- Of listeners with ids of their own, a tracker is found under its id. -/
theorem tracked?_eq_some_iff_mem (h : d.Listed) {selections : SelectionList} :
    d.tracked? tracker = some selections ↔ ⟨tracker, .tracker selections⟩ ∈ d.listeners := by
  rw [tracked?_eq_some_iff]
  constructor
  · rintro ⟨before, after, hlisteners, -⟩
    rw [hlisteners]
    simp
  · intro hmem
    obtain ⟨before, after, hlisteners⟩ := List.append_of_mem hmem
    refine ⟨before, after, hlisteners, fun l hl heq => ?_⟩
    have hdistinct := h.distinct
    rw [hlisteners, List.map_append, List.map_cons] at hdistinct
    exact (List.nodup_append.mp hdistinct).2.2 l.id (List.mem_map_of_mem hl) tracker
      (List.mem_cons_self) heq

/-- A new listener has an id of its own. -/
theorem Listed.subscribe (h : d.Listed) (role : ListenerRole) : (d.subscribe role).2.Listed where
  distinct := by
    rw [Document.subscribe, List.map_append, List.nodup_append]
    refine ⟨h.distinct, List.nodup_singleton _, fun id hid other hother => ?_⟩
    obtain ⟨l, hl, rfl⟩ := List.mem_map.mp hid
    rw [List.map_singleton, List.mem_singleton] at hother
    exact hother ▸ (h.issued l hl).ne
  issued l hl := by
    rcases List.mem_append.mp hl with hl | hl
    · exact lt_trans (h.issued l hl) (Nat.lt_succ_self _)
    · rw [List.mem_singleton.mp hl]
      exact Nat.lt_succ_self _

theorem Listed.track (h : d.Listed) (selections : SelectionList) :
    (d.track selections).2.Listed :=
  h.subscribe _

theorem Lends.track {id : Nat} (h : d.Lends id) (selections : SelectionList) :
    (d.track selections).2.Lends id where
  issued := Nat.lt_succ_of_lt h.issued
  isTracker l hl hid := by
    rcases List.mem_append.mp hl with hl | hl
    · exact h.isTracker l hl hid
    · rw [List.mem_singleton.mp hl]
      rfl

/-- The id of a new tracker is lent to it. -/
theorem Listed.lends_track (h : d.Listed) (selections : SelectionList) :
    (d.track selections).2.Lends d.nextListener where
  issued := Nat.lt_succ_self _
  isTracker l hl hid := by
    rcases List.mem_append.mp hl with hl | hl
    · exact absurd hid (h.issued l hl).ne
    · rw [List.mem_singleton.mp hl]
      rfl

namespace Hears

theorem refl (d : Document) : d.Hears tracker [] d :=
  ⟨le_rfl, rfl, (List.append_nil _).symm, d.audience.alike_refl tracker⟩

theorem trans (h : d.Hears tracker events e) (h' : e.Hears tracker later e') :
    d.Hears tracker (events ++ later) e' where
  counted := le_trans h.counted h'.counted
  timestamp := by rw [h'.timestamp, h.timestamp, List.length_append, Nat.add_assoc]
  told := by rw [h'.told, h.told, List.append_assoc]
  audience := by
    rw [hearing_append]
    exact (h.audience.hearing later).trans h'.audience

/-- A step that the listeners do not hear of. -/
theorem aside (hcounted : d.nextListener ≤ e.nextListener) (htimestamp : e.timestamp = d.timestamp)
    (hheard : e.heard = d.heard) (haudience : d.audience.Alike tracker e.audience) :
    d.Hears tracker [] e :=
  ⟨hcounted, htimestamp, by rw [toldTo, hheard, List.append_nil]; rfl, haudience⟩

/-- A step that does nothing to the listeners. -/
theorem silent (hcounted : e.nextListener = d.nextListener) (htimestamp : e.timestamp = d.timestamp)
    (hheard : e.heard = d.heard) (haudience : e.audience = d.audience) :
    d.Hears tracker [] e :=
  aside hcounted.ge htimestamp hheard (haudience ▸ d.audience.alike_refl tracker)

theorem listed (h : d.Hears tracker events e) (hd : d.Listed) : e.Listed := by
  have hids : e.listeners.map (·.id) = (hearing events d.audience).listeners.map (·.id) :=
    ids_eq_of_alike h.audience.listeners
  have hsub := ids_hearing_sublist events d.audience
  refine ⟨hids ▸ hd.distinct.sublist hsub, fun l hl => ?_⟩
  have hmem : l.id ∈ d.listeners.map (·.id) := hsub.subset (hids ▸ List.mem_map_of_mem hl)
  obtain ⟨old, hold, hid⟩ := List.mem_map.mp hmem
  exact hid ▸ lt_of_lt_of_le (hd.issued old hold) h.counted

/-- The tracker that is followed holds what it held, moved through the events. -/
theorem tracked (h : d.Hears tracker events e) (hd : d.Listed) {l : SelectionList}
    (hl : d.tracked? tracker = some l) : e.tracked? tracker = some (l.follow events) := by
  rw [tracked?_eq_some_iff_mem hd] at hl
  rw [tracked?_eq_some_iff_mem (h.listed hd)]
  obtain ⟨m, hm, -, rfl | ⟨hne, -⟩⟩ := exists_of_forall₂_left h.audience.listeners
    (mem_hearing d.audience hl events)
  · exact hm
  · exact absurd rfl hne

/-- Trackers stay trackers. -/
theorem lends (h : d.Hears tracker events e) {id : Nat} (hid : d.Lends id) : e.Lends id := by
  refine ⟨lt_of_lt_of_le hid.issued h.counted, fun l hl hlid => ?_⟩
  obtain ⟨m, hm, hid', hrole⟩ := exists_of_forall₂_right h.audience.listeners hl
  obtain ⟨old, hold, holdid, holdrole⟩ := exists_of_mem_hearing hm
  have hold' := hid.isTracker old hold (holdid.trans (hid'.symm.trans hlid))
  rcases hrole with rfl | ⟨-, -, hl'⟩
  · rwa [← holdrole]
  · exact hl'

/-! ## Changes -/

/-- A change is heard by every listener, once. -/
theorem apply (hd : d.Listed) {l : SelectionList} (hl : d.tracked? tracker = some l)
    (change : Change) :
    d.Hears tracker [eventOf d.text change] (d.apply change).2 where
  counted := le_rfl
  timestamp := rfl
  told := by
    rw [toldTo, heard_apply, List.filter_append, List.map_append]
    refine congrArg (_ ++ ·) ?_
    obtain ⟨before, after, hlisteners⟩ :=
      List.append_of_mem ((tracked?_eq_some_iff_mem hd).mp hl)
    have hdistinct := hd.distinct
    rw [hlisteners, List.map_append, List.map_cons, List.nodup_append, List.nodup_cons] at hdistinct
    -- nobody else has the id of the tracker
    have hnone : ∀ others : List Listener, tracker ∉ others.map (·.id) →
        (others.map fun l => (l.id, eventOf d.text change)).filter
          (fun telling => telling.1 = tracker) = [] := by
      intro others hothers
      refine List.filter_eq_nil_iff.mpr fun telling htelling heq => ?_
      obtain ⟨l, hl, rfl⟩ := List.mem_map.mp htelling
      exact hothers (List.mem_map.mpr ⟨l, hl, of_decide_eq_true heq⟩)
    rw [hlisteners, List.map_append, List.map_cons, List.filter_append,
      hnone before fun hmem => hdistinct.2.2 _ hmem _ List.mem_cons_self rfl,
      List.filter_cons_of_pos (by simp), hnone after hdistinct.2.1.1]
    rfl
  audience := by
    rw [audience_apply]
    exact Audience.alike_refl tracker _

/-! ## Listeners that come and go -/

/-- A tracker that has come, and is dropped again, was not there. -/
theorem without {selections : SelectionList} (hd : d.Listed)
    (h : (d.track selections).2.Hears tracker events e) :
    d.Hears tracker events (e.unsubscribe d.nextListener) := by
  have hold : (hearing events d.audience).listeners.filter (fun l => l.id ≠ d.nextListener) =
      (hearing events d.audience).listeners := by
    refine List.filter_eq_self.mpr fun l hl => ?_
    obtain ⟨old, hold, hid, -⟩ := exists_of_mem_hearing hl
    exact decide_eq_true (hid ▸ (hd.issued old hold).ne)
  have hfollowed : (d.track selections).2.audience =
      d.audience.withTracker d.nextListener selections := rfl
  have haudience := h.audience
  rw [hfollowed, hearing_withTracker] at haudience
  refine ⟨le_trans (Nat.le_succ _) h.counted, h.timestamp, h.told, ?_, ?_⟩
  · have hkept := List.rel_filter (p := fun l => decide (l.id ≠ d.nextListener))
      (q := fun l => decide (l.id ≠ d.nextListener))
      (fun _ _ hlm => by dsimp only; rw [hlm.1]) haudience.listeners
    rwa [Audience.withTracker, List.filter_append, hold, List.filter_cons_of_neg (by simp),
      List.filter_nil, List.append_nil] at hkept
  · -- who goes is the tracker, which holds nothing
    have hnothing : (e.listeners.filter fun l => l.id = d.nextListener).flatMap Listener.held =
        [] := by
      refine List.flatMap_eq_nil_iff.mpr fun l hl => ?_
      obtain ⟨hl, hid⟩ := List.mem_filter.mp hl
      have hlends := h.lends (hd.lends_track selections)
      obtain ⟨held, heq⟩ := Listener.exists_tracker (hlends.isTracker l hl (of_decide_eq_true hid))
      rw [heq]
      rfl
    show e.deferred ++ _ = _
    rw [hnothing, List.append_nil]
    exact haudience.deferred

end Hears

/-! ## Edits -/

/-- Giving another tracker other selections. -/
theorem hears_giving {other : Nat} (hlends : d.Lends other) (hne : other ≠ tracker)
    (selections : SelectionList) : d.Hears tracker [] (d.giving other selections) := by
  refine .aside le_rfl rfl rfl ⟨?_, rfl⟩
  show List.Forall₂ _ d.listeners (d.giving other selections).listeners
  rw [giving, List.forall₂_map_right_iff, List.forall₂_same]
  intro l hl
  by_cases hid : l.id = other
  · rw [if_pos hid]
    exact ⟨rfl, .inr ⟨hid ▸ hne, hlends.isTracker l hl hid, rfl⟩⟩
  · rw [if_neg hid]
    exact l.alike_refl tracker

theorem hears_record (d : Document) (change : Change) :
    d.Hears tracker [] (d.record change) := by
  unfold record
  split
  · exact .refl d
  · exact .silent rfl rfl rfl rfl

section Editing

variable (hd : d.Listed) (hl : (d.tracked? tracker).isSome)

include hd hl

/-- Whatever is typed, the listeners hear of. -/
theorem Typed.hears (h : d.Typed e) : ∃ events, d.Hears tracker events e := by
  induction h with
  | refl => exact ⟨[], .refl d⟩
  | @step e change after _ _ ih =>
    obtain ⟨events, hevents⟩ := ih
    have hrecord := hevents.trans (hears_record e change)
    obtain ⟨l, hl⟩ := Option.isSome_iff_exists.mp hl
    exact ⟨_, hrecord.trans (.apply (hrecord.listed hd) (hrecord.tracked hd hl) change)⟩

theorem hears_replay (changes : List Change) :
    ∃ events, d.Hears tracker events (d.replay changes).2 := by
  induction changes generalizing d with
  | nil => exact ⟨[], .refl d⟩
  | cons change changes ih =>
    obtain ⟨l, hl⟩ := Option.isSome_iff_exists.mp hl
    have hchange := Hears.apply hd hl change
    obtain ⟨events, hrest⟩ := ih (hchange.listed hd)
      (Option.isSome_of_eq_some (hchange.tracked hd hl))
    exact ⟨_, hchange.trans hrest⟩

theorem hears_undo : ∃ events, d.Hears tracker events d.undo.2 := by
  have hcommit : d.Hears tracker [] d.commit := .silent rfl rfl rfl rfl
  unfold undo
  dsimp only
  split
  · exact ⟨[], hcommit⟩
  next step rest _ =>
    obtain ⟨events, hreplay⟩ := hears_replay (d := d.commit) (hcommit.listed hd) hl
      (step.map Change.inverse)
    exact ⟨_, (hcommit.trans hreplay).trans (.silent rfl rfl rfl rfl)⟩

theorem hears_redo : ∃ events, d.Hears tracker events d.redo.2 := by
  unfold redo
  split
  · exact ⟨[], .refl d⟩
  next step rest _ =>
    obtain ⟨events, hreplay⟩ := hears_replay hd hl step.reverse
    exact ⟨_, hreplay.trans (.silent rfl rfl rfl rfl)⟩

end Editing

end Document

end ModalEdit
