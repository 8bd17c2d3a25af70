import ModalEdit.Proofs.CarriedSelections
import ModalEdit.Proofs.Changes
import ModalEdit.Proofs.Delivery

/-!
# What becomes of a tracker nobody else has

`d.Evolves tracker events e` says that a document was changed, the changes announced as `events`,
while nothing else was done to one of its trackers. The tracker then holds what it held at first,
moved through the events (`Evolves.tracked`), on positions of the text as it is by then
(`Evolves.within`).
-/

namespace ModalEdit.Document

open Text

/-- **`d.Evolves tracker events e`** — from `d` to `e` there were changes that fit, announced as
`events`, and steps aside, which leave the text and the tracker alone. -/
inductive Evolves (tracker : Nat) (d : Document) : List Event → Document → Prop
  | refl : Evolves tracker d [] d
  | change {events : List Event} {e : Document} {change : Change} {after : List Char} :
    Evolves tracker d events e → change.Turns e.text after →
      Evolves tracker d (events ++ [eventOf e.text change]) (e.apply change).2
  | aside {events : List Event} {e e' : Document} :
    Evolves tracker d events e → e'.text = e.text → e'.tracked? tracker = e.tracked? tracker →
      Evolves tracker d events e'

theorem tracked?_eq_some_iff {d : Document} {tracker : Nat} {selections : SelectionList} :
    d.tracked? tracker = some selections ↔
      ∃ before after, d.listeners = before ++ ⟨tracker, .tracker selections⟩ :: after ∧
        ∀ l ∈ before, l.id ≠ tracker := by
  unfold tracked?
  rw [Option.bind_eq_some_iff]
  constructor
  · rintro ⟨l, hfind, hl⟩
    -- the listener found is the first one with that id
    obtain ⟨hid, before, after, hlisteners, hbefore⟩ := List.find?_eq_some_iff_append.mp hfind
    obtain ⟨id, role⟩ := l
    obtain rfl : id = tracker := by simpa using hid
    cases role with
    | tracker held =>
      obtain rfl : held = selections := by simpa [Listener.selections?] using hl
      exact ⟨before, after, hlisteners, fun l hl => by simpa using hbefore l hl⟩
    | reacting observer => simp [Listener.selections?] at hl
  · rintro ⟨before, after, hlisteners, hbefore⟩
    refine ⟨⟨tracker, .tracker selections⟩, ?_, rfl⟩
    rw [List.find?_eq_some_iff_append]
    exact ⟨by simp, before, after, hlisteners, fun l hl => by simpa using hbefore l hl⟩

/-- A change moves every tracker. -/
theorem tracked?_apply {d : Document} {tracker : Nat} {selections : SelectionList}
    (h : d.tracked? tracker = some selections) (change : Change) :
    (d.apply change).2.tracked? tracker =
      some (selections.carry (eventOf d.text change)) := by
  obtain ⟨before, after, hlisteners, hbefore⟩ := tracked?_eq_some_iff.mp h
  rw [tracked?_eq_some_iff, listeners_apply, hlisteners, List.map_append, List.map_cons,
    List.filter_append, List.filter_cons_of_pos (by simp [Listener.hear])]
  refine ⟨_, _, rfl, fun l hl => ?_⟩
  obtain ⟨told, htold, rfl⟩ := List.mem_map.mp (List.mem_filter.mp hl).1
  rw [Listener.id_hear]
  exact hbefore told htold

/-- A new tracker holds the selections that it is given. -/
theorem tracked?_track {d : Document} (h : ∀ l ∈ d.listeners, l.id < d.nextListener)
    (selections : SelectionList) :
    (d.track selections).2.tracked? d.nextListener = some selections := by
  rw [tracked?_eq_some_iff]
  exact ⟨d.listeners, [], rfl, fun l hl => (h l hl).ne⟩

theorem issued_track {d : Document} (h : ∀ l ∈ d.listeners, l.id < d.nextListener)
    (selections : SelectionList) :
    ∀ l ∈ (d.track selections).2.listeners, l.id < (d.track selections).2.nextListener := by
  intro l hl
  rcases List.mem_append.mp hl with hl | hl
  · exact lt_trans (h l hl) (Nat.lt_succ_self _)
  · rw [List.mem_singleton.mp hl]
    exact Nat.lt_succ_self _

/-- The id of a tracker has been issued. -/
theorem lt_nextListener_of_tracked? {d : Document} {tracker : Nat}
    (h : ∀ l ∈ d.listeners, l.id < d.nextListener) (htracked : (d.tracked? tracker).isSome) :
    tracker < d.nextListener := by
  obtain ⟨held, hheld⟩ := Option.isSome_iff_exists.mp htracked
  obtain ⟨before, after, hlisteners, -⟩ := tracked?_eq_some_iff.mp hheld
  exact h ⟨tracker, .tracker held⟩ (hlisteners ▸ List.mem_append_right _ List.mem_cons_self)

/-- A new listener leaves the trackers alone that there are. -/
theorem tracked?_subscribe {d : Document} {tracker : Nat} (h : tracker ≠ d.nextListener)
    (role : ListenerRole) : (d.subscribe role).2.tracked? tracker = d.tracked? tracker := by
  unfold tracked? subscribe
  rw [List.find?_append]
  cases d.listeners.find? fun l => l.id = tracker with
  | some l => rfl
  | none => simp [Ne.symm h]

/-! ## Giving a tracker other selections -/

section Giving

variable {d : Document} {tracker other : Nat}

/-- The document whose tracker holds other selections. -/
def giving (d : Document) (tracker : Nat) (selections : SelectionList) : Document :=
  { d with listeners := d.listeners.map fun l =>
      if l.id = tracker then { l with role := .tracker selections } else l }

theorem assign_single (d : Document) (tracker : Nat) (s : Selection) :
    d.assign tracker (.single s) = .ok (d.giving tracker (.single (s.map (clamp d.text)))) := by
  rw [assign, SelectionList.mapCoords_single,
    SelectionList.validate_eq_ok_iff.mpr (SelectionList.single_wellFormed _)]
  rfl

theorem tracked?_giving_of_ne (hne : other ≠ tracker) (selections : SelectionList) :
    (d.giving tracker selections).tracked? other = d.tracked? other := by
  unfold tracked? giving
  dsimp only
  induction d.listeners with
  | nil => rfl
  | cons l rest ih =>
    by_cases hl : l.id = tracker
    · simpa [hl, Ne.symm hne] using ih
    · by_cases hother : l.id = other
      · simp [hother, hne]
      · simpa [hl, hother] using ih

theorem tracked?_giving (h : (d.tracked? tracker).isSome) (selections : SelectionList) :
    (d.giving tracker selections).tracked? tracker = some selections := by
  obtain ⟨held, hheld⟩ := Option.isSome_iff_exists.mp h
  obtain ⟨before, after, hlisteners, hbefore⟩ := tracked?_eq_some_iff.mp hheld
  rw [tracked?_eq_some_iff, giving, hlisteners]
  refine ⟨_, _, by rw [List.map_append, List.map_cons, if_pos rfl], fun l hl => ?_⟩
  obtain ⟨old, hold, rfl⟩ := List.mem_map.mp hl
  rw [if_neg (hbefore old hold)]
  exact hbefore old hold

end Giving

/-! ## Through an evolution -/

namespace Evolves

variable {tracker : Nat} {d e e' : Document} {events later : List Event}

theorem trans (h : d.Evolves tracker events e) (h' : e.Evolves tracker later e') :
    d.Evolves tracker (events ++ later) e' := by
  induction h' with
  | refl => rwa [List.append_nil]
  | change _ hfit ih =>
    rw [← List.append_assoc]
    exact ih.change hfit
  | aside _ htext htracked ih => exact ih.aside htext htracked

theorem of_aside (htext : e.text = d.text) (htracked : e.tracked? tracker = d.tracked? tracker) :
    d.Evolves tracker [] e :=
  .aside .refl htext htracked

theorem monotone (h : d.Evolves tracker events e) : ∀ event ∈ events, Monotone event.carry := by
  induction h with
  | refl => simp
  | change _ hfit ih =>
    refine List.forall_mem_append.mpr ⟨ih, fun event hevent => ?_⟩
    rw [List.mem_singleton.mp hevent]
    exact hfit.carry_monotone
  | aside _ _ _ ih => exact ih

/-- The tracker follows the events. -/
theorem tracked (h : d.Evolves tracker events e) {l : SelectionList}
    (hl : d.tracked? tracker = some l) : e.tracked? tracker = some (l.follow events) := by
  induction h with
  | refl => exact hl
  | change _ hfit ih =>
    rw [SelectionList.follow_concat]
    exact tracked?_apply ih _
  | aside _ _ htracked ih => rw [htracked, ih]

/-- Positions follow the events. -/
theorem within (h : d.Evolves tracker events e) {l : SelectionList}
    (hl : l.Within (IsPosition d.text)) : (l.follow events).Within (IsPosition e.text) := by
  induction h with
  | refl => exact hl
  | change _ hfit ih =>
    rw [SelectionList.follow_concat, text_apply, hfit.applyTo_eq]
    exact ih.mapCoords fun c hc => hfit.isPosition_carry hc
  | aside _ htext _ ih =>
    rw [htext]
    exact ih

end Evolves

end ModalEdit.Document
