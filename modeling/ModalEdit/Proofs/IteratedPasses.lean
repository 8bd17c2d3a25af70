import ModalEdit.Proofs.MovingCommands
import ModalEdit.Proofs.TrackerFrame
import ModalEdit.Proofs.TrackerValidity
import ModalEdit.Proofs.VisitOrder

/-!
# Which selections the passes visit

When an act runs once per selection, the passes read a tracker of the selections by index. As long
as the body of a pass does nothing to that tracker but through changes of the text
(`PassEvolves`), the tracker holds the original selections, carried through the events of the passes
so far, and those that have come to touch merged. Bodies that make moves, as command lines do, are
like that in every pass (`Passes.exists_events`).

So pass `k` is given the image of the `k`-th selection that still stays apart. No selection is
visited twice and the passes go through the text in order, but a selection can be jumped over: when
selections visited before are merged, the ones to come move up. `iteration_visits` says when.
-/

namespace ModalEdit.Scene

open Act Text

variable {document tracker : Nat} {l : SelectionList} {s start stop : Scene}

/-! ## One pass -/

/-- **`PassEvolves document tracker events start stop`** — what the body of a pass may do: change
the document, which is announced as `events`, and anything that leaves the tracker of the passes
alone. -/
structure PassEvolves (document tracker : Nat) (events : List Event) (start stop : Scene) :
    Prop where
  evolves :
    (start.editor.document document).Evolves tracker events (stop.editor.document document)
  /-- The context still has a tracker. -/
  tracked : (stop.document.tracked? stop.context.tracker).isSome
  /-- That tracker is its own. -/
  apart : stop.context.IsApart document tracker

/-- **`Ready document tracker l s`** — between two passes, the tracker holds `l`, in the text. -/
structure Ready (document tracker : Nat) (l : SelectionList) (s : Scene) : Prop where
  held : (s.editor.document document).tracked? tracker = some l
  within : l.Within (IsPosition (s.editor.document document).text)
  tracked : (s.document.tracked? s.context.tracker).isSome
  apart : s.context.IsApart document tracker

/-- Giving the context its selection leaves everything ready; if the context is on the document, it
then has exactly that selection. -/
theorem Ready.select {x : Selection} (h : Ready document tracker l s)
    (hset : (setSelections (.single x)).perform s = (.ok (), start)) :
    Ready document tracker l start ∧
      (x ∈ l.selections → start.context.document = document → start.selections = .single x) := by
  rw [perform_setSelections_single] at hset
  obtain rfl := (Prod.mk.inj hset).2
  have hlt := Editor.lt_of_tracked? h.tracked
  have hself := Document.tracked?_giving h.tracked (.single (x.map (clamp s.document.text)))
  have hdocument := s.editor.document_setDocument s.context.document
  constructor
  · refine ⟨?_, ?_, ?_, h.apart⟩
    · rw [hdocument]
      split
      next heq =>
        -- the context is on the document, but has another tracker
        have hne : tracker ≠ s.context.tracker := fun hn => h.apart heq.1.symm hn.symm
        rw [Document.tracked?_giving_of_ne hne, Scene.document, ← heq.1]
        exact h.held
      next => exact h.held
    · rw [hdocument]
      split
      next heq =>
        show l.Within (IsPosition s.document.text)
        rw [Scene.document, ← heq.1]
        exact h.within
      next => exact h.within
    · rw [Scene.document, hdocument, if_pos ⟨rfl, hlt⟩, hself]
      rfl
  · intro hx hon
    -- a selection of the tracker is in the text, so assigning it does not move it
    have hwithin : l.Within (IsPosition s.document.text) := by
      rw [Scene.document, show s.context.document = document from hon]
      exact h.within
    rw [Scene.selections, Editor.selections, Document.selections, hdocument, if_pos ⟨rfl, hlt⟩,
      hself, hwithin.map_clamp hx]
    rfl

/-- A body that leaves the tracker alone makes everything ready for the next pass. -/
theorem Ready.evolve {events : List Event} (h : Ready document tracker l start)
    (hbody : PassEvolves document tracker events start stop) :
    Ready document tracker (l.follow events) stop where
  held := hbody.evolves.tracked h.held
  within := hbody.evolves.within h.within
  tracked := hbody.tracked
  apart := hbody.apart

/-! ## All passes -/

/-- **What the passes are given** — pass `k` is given the selection with the `k`-th index among
those that the tracker holds after the events of the passes before it; there are no more passes when
the indices are used up or the tracker has no selection with the next index. -/
theorem Passes.given {body : Act Scene Unit} {indices : List Nat} {passes : List Pass} {t : Scene}
    {events : List (List Event)} (h : Passes document tracker body indices s passes t)
    (hready : Ready document tracker l s)
    (hbody : List.Forall₂
      (fun happened p => PassEvolves document tracker happened p.start p.stop) events passes) :
    (∀ k p, passes[k]? = some p → ∃ index, indices[k]? = some index ∧
      (l.follow (events.take k).flatten).get? index = some p.selection ∧
      (p.start.context.document = document → p.start.selections = .single p.selection)) ∧
    ∀ index, indices[passes.length]? = some index →
      (l.follow events.flatten).get? index = none := by
  induction h generalizing l events with
  | done s => simp
  | exhausted hnone =>
    cases hbody
    rw [Document.selections, hready.held] at hnone
    exact ⟨by simp, by simpa [SelectionList.follow] using hnone⟩
  | @pass index rest s t p passes hsome hset hrun _ ih =>
    cases hbody with
    | @cons happened _ events _ hp hrest =>
      rw [Document.selections, hready.held, Option.getD_some] at hsome
      obtain ⟨hstart, hselected⟩ := hready.select hset
      obtain ⟨hgiven, hended⟩ := ih (hstart.evolve hp) hrest
      constructor
      · intro k q hq
        cases k with
        | zero =>
          obtain rfl : p = q := by simpa using hq
          exact ⟨index, rfl, hsome, hselected (List.mem_of_getElem? hsome)⟩
        | succ k =>
          obtain ⟨next, hnext, hget, hsel⟩ := hgiven k q (by simpa using hq)
          refine ⟨next, by simpa using hnext, ?_, hsel⟩
          rwa [List.take_succ_cons, List.flatten_cons, SelectionList.follow_append]
      · intro next hnext
        rw [List.flatten_cons, SelectionList.follow_append]
        exact hended next (by simpa using hnext)

/-! ## Bodies that make moves -/

/-- **`WorksApart document tracker s`** — the tracker of the passes is out of reach, and no client
has the one of the context. -/
structure WorksApart (document tracker : Nat) (s : Scene) : Prop where
  guards : s.editor.Guards document tracker
  own : s.editor.Guards s.context.document s.context.tracker
  tracked : (s.document.tracked? s.context.tracker).isSome
  apart : s.context.IsApart document tracker

theorem Moves.worksApart {t : Scene} (h : Moves s t) (hs : WorksApart document tracker s) :
    WorksApart document tracker t := by
  obtain ⟨hdocument, htracker⟩ := h.context_eq
  have hown := h.spares hs.own
  refine ⟨(h.spares hs.guards).guards, ?_, ?_, h.isApart_iff.mpr hs.apart⟩
  · rw [hdocument, htracker]
    exact hown.guards
  · rw [Scene.document, hdocument, htracker]
    exact hown.leaves.held hs.tracked

/-- **Bodies that make moves** — in all passes, such a body only changes the document, and leaves
the tracker of the passes alone. -/
theorem Passes.exists_events {body : Act Scene Unit} {indices : List Nat} {passes : List Pass}
    {t : Scene} (h : Passes document tracker body indices s passes t) (hbody : Moving body)
    (hs : WorksApart document tracker s) :
    ∃ events, List.Forall₂
      (fun happened p => PassEvolves document tracker happened p.start p.stop) events passes := by
  induction h with
  | done => exact ⟨[], .nil⟩
  | exhausted => exact ⟨[], .nil⟩
  | @pass index rest s t p passes _ hset hrun _ ih =>
    have hselect : Moves s _ := obeys_setSelections_single p.selection s
    have hmoves := hbody p.start
    rw [hset] at hselect
    rw [hrun] at hmoves
    have hstart := hselect.worksApart hs
    have hstop := hmoves.worksApart hstart
    obtain ⟨happened, hhappened⟩ := (hmoves.spares hstart.guards).leaves.evolves hstart.apart
    obtain ⟨events, hevents⟩ := ih hstop
    exact ⟨happened :: events, .cons ⟨hhappened, hstop.tracked, hstop.apart⟩ hevents⟩

end ModalEdit.Scene
