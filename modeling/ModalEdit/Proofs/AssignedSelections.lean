import ModalEdit.Proofs.Audience
import ModalEdit.Proofs.SelectionCalls
import ModalEdit.Proofs.TrackerValidity

/-!
# Giving a tracker selections

A list that is given to a tracker is first moved into the text. Whatever its coordinates are, what
the tracker then holds fits the text, and its main selection is the one that has taken in the old
main one (`assign_eq`). A list that fits already is left as it is (`mapCoords_clamp_of_fits`), so
giving a tracker what it holds changes nothing, where that fits (`stable_of_fits`).

It goes on to fit: a tracker that fits, among listeners of any kind, still fits after every run of
operations (`Settled.run`). From the first list that it is given on, a tracker can therefore be
given what it holds and nothing changes (`assignment_projects`). A new tracker holds a list that
nobody has moved into the text, and there this fails (`unmoved_list_is_moved`).
-/

namespace ModalEdit.Document

open Text

variable {d e : Document} {tracker : Nat}

/-! ## One assignment -/

/-- **`d.Stable tracker`** — giving the tracker the selections that it holds changes nothing. -/
def Stable (d : Document) (tracker : Nat) : Prop :=
  ∀ held, d.tracked? tracker = some held → d.assign tracker held = .ok d

/-- Every list with a main selection can be given. -/
theorem assign_eq {selections : SelectionList} (tracker : Nat)
    (h : selections.mainIndex < selections.length) :
    d.assign tracker selections =
      .ok (d.giving tracker (selections.mapCoords (clamp d.text))) := by
  rw [assign, SelectionList.validate_eq_ok_iff.mpr (fits_clamped d.text h).1]
  rfl

theorem mapCoords_clamp_of_fits {text : List Char} {selections : SelectionList}
    (h : (ListenerRole.tracker selections).Fits text) :
    selections.mapCoords (clamp text) = selections := by
  obtain ⟨hwell, hwithin⟩ := h
  have hsame : selections.selections.map (·.map (clamp text)) = selections.selections := by
    conv_rhs => rw [← List.map_id selections.selections]
    exact List.map_congr_left fun s hs => hwithin.map_clamp hs
  rw [SelectionList.mapCoords, SelectionList.transform, hsame]
  exact SelectionList.normalize_of_wellFormed hwell

/-- A tracker that is told what it holds stays what it is. -/
theorem giving_of_tracked {held : SelectionList} (hd : d.Listed)
    (h : d.tracked? tracker = some held) : d.giving tracker held = d := by
  have hsame : (d.listeners.map fun l =>
      if l.id = tracker then { l with role := .tracker held } else l) = d.listeners := by
    conv_rhs => rw [← List.map_id d.listeners]
    refine List.map_congr_left fun l hl => ?_
    split
    next hid =>
      -- no other listener has that id
      have hmem := (tracked?_eq_some_iff_mem hd).mp h
      rw [List.inj_on_of_nodup_map hd.distinct hl hmem hid]
      rfl
    next => rfl
  rw [giving, hsame]

theorem stable_of_fits (hd : d.Listed)
    (h : ∀ held, d.tracked? tracker = some held → (ListenerRole.tracker held).Fits d.text) :
    d.Stable tracker := by
  intro held hheld
  have hfits := h held hheld
  rw [assign_eq tracker hfits.1.main_lt, mapCoords_clamp_of_fits hfits,
    giving_of_tracked hd hheld]

/-! ## Ids of listeners -/

theorem listed_ofText (name text : String) : (ofText name text).Listed where
  distinct := List.nodup_nil
  issued _ hl := nomatch hl

theorem Listed.of_sublist (h : d.Listed)
    (hids : (e.listeners.map (·.id)).Sublist (d.listeners.map (·.id)))
    (hnext : d.nextListener ≤ e.nextListener) : e.Listed where
  distinct := h.distinct.sublist hids
  issued l hl := by
    obtain ⟨old, hold, hid⟩ := List.mem_map.mp (hids.subset (List.mem_map_of_mem hl))
    exact hid ▸ lt_of_lt_of_le (h.issued old hold) hnext

theorem ids_apply_sublist (d : Document) (change : Change) :
    ((d.apply change).2.listeners.map (·.id)).Sublist (d.listeners.map (·.id)) := by
  have hids := ids_hearing_sublist [eventOf d.text change] d.audience
  rwa [hearing_cons, ← audience_apply] at hids

theorem ids_giving (d : Document) (tracker : Nat) (selections : SelectionList) :
    (d.giving tracker selections).listeners.map (·.id) = d.listeners.map (·.id) := by
  rw [giving, List.map_map]
  refine List.map_congr_left fun l _ => ?_
  rw [Function.comp_apply]
  split <;> rfl

/-! ## A tracker that fits -/

/-- **`d.Settled tracker`** — the tracker is known, and as long as it is there it fits the text.
The other listeners may be anything. -/
structure Settled (d : Document) (tracker : Nat) : Prop where
  listed : d.Listed
  issued : tracker < d.nextListener
  fits : ∀ held, ⟨tracker, .tracker held⟩ ∈ d.listeners →
    (ListenerRole.tracker held).Fits d.text

namespace Settled

theorem stable (h : d.Settled tracker) : d.Stable tracker :=
  stable_of_fits h.listed fun held hheld =>
    h.fits held ((tracked?_eq_some_iff_mem h.listed).mp hheld)

/-- Neither the history nor the answers matter. -/
theorem of_eq (h : d.Settled tracker) (hlisteners : e.listeners = d.listeners)
    (hnext : e.nextListener = d.nextListener) (htext : e.text = d.text) : e.Settled tracker where
  listed := h.listed.of_sublist (hlisteners ▸ List.Sublist.refl _) hnext.ge
  issued := hnext ▸ h.issued
  fits := by
    rw [hlisteners, htext]
    exact h.fits

theorem apply {change : Change} {after : List Char} (h : d.Settled tracker)
    (hchange : change.Turns d.text after) : (d.apply change).2.Settled tracker where
  listed := h.listed.of_sublist (ids_apply_sublist d change) le_rfl
  issued := h.issued
  fits held hheld := by
    rw [listeners_apply, List.mem_filter, List.mem_map] at hheld
    obtain ⟨⟨⟨id, role⟩, hold, hhear⟩, -⟩ := hheld
    rw [text_apply, hchange.applyTo_eq]
    cases role with
    | tracker old =>
      obtain ⟨rfl, hrole⟩ := (Listener.mk.injEq _ _ _ _).mp hhear
      exact hrole ▸ (ListenerRole.Fits.hear (l := ⟨id, .tracker old⟩) (h.fits old hold) hchange).2
    | reacting observer => cases hhear

theorem replay {changes : List Change} {after : List Char} (h : d.Settled tracker)
    (hchanges : TurnAll changes d.text after) : (d.replay changes).2.Settled tracker := by
  generalize hbefore : d.text = before at hchanges
  induction hchanges generalizing d with
  | nil => exact h
  | cons hchange _ ih =>
    subst hbefore
    rw [replay_cons]
    refine ih (h.apply hchange) ?_
    rw [text_apply, hchange.applyTo_eq]

/-- Every edit is one of five steps; what undo and redo replay fits the text. -/
theorem edit_step {done : Except SelectionError Bool × Document} (h : d.Settled tracker)
    (hd : d.Replayable) (hstep : d.EditStep done) : done.2.Settled tracker := by
  cases hstep with
  | nothing => exact h
  | commit => exact h.of_eq rfl rfl rfl
  | @change change _ hchange =>
    have hrecord : (d.record change).Settled tracker := by
      refine h.of_eq (listeners_record d change) ?_ (text_record d change)
      rw [record]
      split <;> rfl
    rw [← text_record d change] at hchange
    exact hrecord.apply hchange
  | undo hgroups =>
    obtain ⟨text, hback⟩ := hd.undo_turns hgroups
    have hcommit : d.commit.Settled tracker := h.of_eq rfl rfl rfl
    exact (hcommit.replay hback).of_eq rfl rfl rfl
  | redo hgroups =>
    obtain ⟨text, hon⟩ := hd.redo_turns hgroups
    exact (h.replay hon).of_eq rfl rfl rfl

/-- A listener that comes has an id of its own. -/
theorem subscribe (h : d.Settled tracker) (role : ListenerRole) :
    (d.subscribe role).2.Settled tracker where
  listed := h.listed.subscribe role
  issued := Nat.lt_succ_of_lt h.issued
  fits held hheld := by
    rcases List.mem_append.mp hheld with hold | hnew
    · exact h.fits held hold
    · rw [List.mem_singleton, Listener.mk.injEq] at hnew
      exact absurd hnew.1 h.issued.ne

theorem giving {other : Nat} {given : SelectionList} (h : d.Settled tracker)
    (hgiven : (ListenerRole.tracker given).Fits d.text) :
    (d.giving other given).Settled tracker where
  listed := h.listed.of_sublist (ids_giving d other given ▸ List.Sublist.refl _) le_rfl
  issued := h.issued
  fits held hheld := by
    obtain ⟨old, hold, heq⟩ := List.mem_map.mp hheld
    split at heq
    next =>
      obtain ⟨-, hrole⟩ := (Listener.mk.injEq _ _ _ _).mp heq
      exact hrole ▸ hgiven
    next =>
      subst heq
      exact h.fits held hold

/-- **One step** — whatever is done, the tracker still fits. A list that is refused changes
nothing. -/
theorem perform (h : d.Settled tracker) (hd : d.Replayable) (op : Operation) :
    (d.perform op).2.Settled tracker ∧ (d.perform op).2.Replayable := by
  cases op with
  | insert | erase | commit | undo | redo =>
    exact ⟨h.edit_step hd (d.editStep_perform trivial), hd.step trivial⟩
  | listen role => exact ⟨h.subscribe role, hd.of_eq rfl rfl rfl⟩
  | copy other =>
    rw [Document.perform]
    split
    · exact ⟨h.subscribe _, hd.of_eq rfl rfl rfl⟩
    · exact ⟨h, hd⟩
  | assign other selections =>
    rw [Document.perform, assign]
    cases hvalid : (selections.mapCoords (clamp d.text)).validate with
    | ok _ =>
      have hwell := SelectionList.validate_eq_ok_iff.mp hvalid
      exact ⟨h.giving ⟨hwell, within_clamped d.text selections⟩, hd.of_eq rfl rfl rfl⟩
    | error _ => exact ⟨h, hd⟩
  | leave listener =>
    have hsub : (d.unsubscribe listener).listeners.Sublist d.listeners := List.filter_sublist
    refine ⟨⟨h.listed.of_sublist (hsub.map _) le_rfl, h.issued, fun held hheld => ?_⟩,
      hd.of_eq rfl rfl rfl⟩
    exact h.fits held (hsub.subset hheld)

/-- **A whole run** — by induction on the operations, each step being `Settled.perform`. -/
theorem run (h : d.Settled tracker) (hd : d.Replayable) (ops : List Operation) :
    (d.run ops).2.Settled tracker := by
  induction ops generalizing d with
  | nil => exact h
  | cons op ops ih =>
    obtain ⟨hstep, hreplayable⟩ := h.perform hd op
    exact ih hstep hreplayable

end Settled

theorem settled_of_tracked {held : SelectionList} (hd : d.Listed)
    (hheld : d.tracked? tracker = some held) (hfits : (ListenerRole.tracker held).Fits d.text) :
    d.Settled tracker where
  listed := hd
  issued := lt_nextListener_of_tracked? hd.issued (Option.isSome_of_eq_some hheld)
  fits other hother := by
    rw [← tracked?_eq_some_iff_mem hd, hheld] at hother
    exact Option.some.inj hother ▸ hfits

/-! ## All assignments -/

/-- **`d.StaysStable tracker`** — giving the tracker what it holds changes nothing, now or after
whatever is done to a document whose history can be replayed. -/
def StaysStable (d : Document) (tracker : Nat) : Prop :=
  d.Stable tracker ∧ (d.Replayable → ∀ ops, (d.run ops).2.Stable tracker)

theorem Settled.staysStable (h : d.Settled tracker) : d.StaysStable tracker :=
  ⟨h.stable, fun hd ops => (h.run hd ops).stable⟩

/-- **Assignment projects onto the lists of the text** — wherever the coordinates of a list lie, it
can be given to a tracker. The tracker then holds a list that is valid, with all ends on positions
of the text, whose main selection is the one around the old main selection as it was moved into the
text; a list that was all that already is not changed. From then on, giving the tracker what it
holds changes nothing; and so it is before, if what it holds is valid and in the text. -/
theorem assignment_projects {held selections : SelectionList} (hd : d.Listed)
    (hheld : d.tracked? tracker = some held) (hmain : selections.mainIndex < selections.length) :
    (∃ given, d.assign tracker selections = .ok (d.giving tracker given) ∧
      (d.giving tracker given).tracked? tracker = some given ∧
      given.validate = .ok () ∧ given.Within (IsPosition d.text) ∧
      given.MainContains (selections.main.map (clamp d.text)) ∧
      (selections.validate = .ok () → selections.Within (IsPosition d.text) →
        given = selections) ∧
      (d.giving tracker given).StaysStable tracker) ∧
    (held.validate = .ok () → held.Within (IsPosition d.text) → d.StaysStable tracker) := by
  have hgiven := fits_clamped d.text hmain
  constructor
  · have hafter := tracked?_giving (Option.isSome_of_eq_some hheld)
      (selections.mapCoords (clamp d.text))
    have hlisted : (d.giving tracker (selections.mapCoords (clamp d.text))).Listed :=
      hd.of_sublist (ids_giving d tracker _ ▸ List.Sublist.refl _) le_rfl
    refine ⟨_, assign_eq tracker hmain, hafter, SelectionList.validate_eq_ok_iff.mpr hgiven.1,
      hgiven.2, SelectionList.mainContains_mapCoords _ hmain, fun hvalid hwithin => ?_,
      (settled_of_tracked hlisted hafter hgiven).staysStable⟩
    exact mapCoords_clamp_of_fits ⟨SelectionList.validate_eq_ok_iff.mp hvalid, hwithin⟩
  · intro hvalid hwithin
    exact (settled_of_tracked hd hheld
      ⟨SelectionList.validate_eq_ok_iff.mp hvalid, hwithin⟩).staysStable

/-- A list of which three selections come to lie on the last position, the main one among them, is
given to a tracker whose own list is in the text. -/
theorem assignment_projects_merging :
    let held : SelectionList := .single (.point ⟨0, 1⟩)
    let selections : SelectionList :=
      ⟨[.point ⟨0, 0⟩, .point ⟨1, 0⟩, .point ⟨7, 1⟩, .point ⟨9, 9⟩], 2⟩
    let d := ((ofText "notes" "ab\n").track held).2
    d.Listed ∧ d.tracked? 0 = some held ∧ selections.mainIndex < selections.length ∧
      (∃ given, d.assign 0 selections = .ok (d.giving 0 given) ∧
        (d.giving 0 given).tracked? 0 = some given ∧
        given.validate = .ok () ∧ given.Within (IsPosition d.text) ∧
        given.MainContains (selections.main.map (clamp d.text)) ∧
        (selections.validate = .ok () → selections.Within (IsPosition d.text) →
          given = selections) ∧
        (d.giving 0 given).StaysStable 0) ∧
      (held.validate = .ok () → held.Within (IsPosition d.text) → d.StaysStable 0) := by
  intro held selections d
  have hd : d.Listed := (listed_ofText "notes" "ab\n").track held
  have hheld : d.tracked? 0 = some held := rfl
  have hmain : selections.mainIndex < selections.length := by decide
  exact ⟨hd, hheld, hmain, assignment_projects hd hheld hmain⟩

/-- A new tracker may hold a list that does not lie in the text; giving it that list moves it. -/
theorem unmoved_list_is_moved :
    let held : SelectionList := .single ⟨⟨0, 1⟩, ⟨9, 9⟩, []⟩
    let d := ((ofText "notes" "ab\n").track held).2
    held.validate = .ok () ∧ d.tracked? 0 = some held ∧
      ∃ after, d.assign 0 held = .ok after ∧
        after.tracked? 0 = some (.single ⟨⟨0, 1⟩, ⟨1, 0⟩, []⟩) := by
  intro held d
  refine ⟨rfl, rfl, d.giving 0 (.single ⟨⟨0, 1⟩, ⟨1, 0⟩, []⟩), ?_, rfl⟩
  exact assign_single d 0 _

end ModalEdit.Document
