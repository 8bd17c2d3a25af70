import ModalEdit.Proofs.EditSteps

/-!
# What has been written

While nothing closes the undo step of a document, takes a step back or makes one again, all that
happens to its text and its history is that changes are made and recorded. `Written` says which. The
changes join the pending step, however many edits they come from; so one commit makes one step of
them all, which undo takes back and redo makes again (`Written.undo_commit`, `Written.redo_undo`).
-/

namespace ModalEdit

open Text

theorem TurnAll.eq_of_nil {before after : List Char} (h : TurnAll [] before after) :
    after = before := by
  cases h
  rfl

/-- Records changes, the latest first. -/
def Document.recordAll (d : Document) (changes : List Change) : Document :=
  changes.foldr (fun change e => e.record change) d

/-- **`d.Written changes e`** — the changes, the latest first, were made in `d` and recorded, and
nothing else has happened to its text and its history. -/
structure Document.Written (d : Document) (changes : List Change) (e : Document) : Prop where
  turns : TurnAll changes.reverse d.text e.text
  timestamp : e.timestamp = d.timestamp + changes.length
  noUndo : e.noUndo = d.noUndo
  history : e.history = (d.recordAll changes).history

namespace Document

variable {d e e' : Document} {changes later : List Change}

theorem timestamp_record (d : Document) (change : Change) :
    (d.record change).timestamp = d.timestamp := by
  unfold record
  split <;> rfl

theorem noUndo_recordAll (d : Document) (changes : List Change) :
    (d.recordAll changes).noUndo = d.noUndo := by
  induction changes with
  | nil => rfl
  | cons change changes ih =>
    rw [← ih]
    exact noUndo_record (d.recordAll changes) change

/-- What recording makes of a history depends on nothing else. -/
theorem history_recordAll_congr (hnoUndo : e.noUndo = d.noUndo) (hhistory : e.history = d.history)
    (changes : List Change) : (e.recordAll changes).history = (d.recordAll changes).history := by
  induction changes with
  | nil => exact hhistory
  | cons change changes ih =>
    show ((e.recordAll changes).record change).history =
      ((d.recordAll changes).record change).history
    rw [record, record, noUndo_recordAll, noUndo_recordAll, hnoUndo]
    split
    · exact ih
    · exact congrArg (History.record · change) ih

/-- Changes that are recorded join the pending step. -/
theorem history_recordAll (hrecording : d.noUndo = false) (changes : List Change) :
    (d.recordAll changes).history =
      { d.history with
        pending := changes ++ d.history.pending
        redo := if changes = [] then d.history.redo else [] } := by
  induction changes with
  | nil => rfl
  | cons change changes ih =>
    show ((d.recordAll changes).record change).history = _
    rw [record, if_neg (by simp [noUndo_recordAll, hrecording]), ih]
    rfl

namespace Written

theorem refl (d : Document) : d.Written [] d := ⟨.nil _, rfl, rfl, rfl⟩

/-- The listeners and the tables of a document have no part in it. -/
theorem aside (h : d.Written changes e) (htext : e'.text = e.text)
    (htimestamp : e'.timestamp = e.timestamp) (hnoUndo : e'.noUndo = e.noUndo)
    (hhistory : e'.history = e.history) : d.Written changes e' :=
  ⟨htext ▸ h.turns, htimestamp.trans h.timestamp, hnoUndo.trans h.noUndo, hhistory.trans h.history⟩

theorem trans (h : d.Written changes e) (h' : e.Written later e') :
    d.Written (later ++ changes) e' := by
  refine ⟨?_, ?_, h'.noUndo.trans h.noUndo, ?_⟩
  · rw [List.reverse_append]
    exact h.turns.append h'.turns
  · rw [h'.timestamp, h.timestamp, List.length_append, Nat.add_assoc, Nat.add_comm changes.length]
  · have hboth : d.recordAll (later ++ changes) = (d.recordAll changes).recordAll later :=
      List.foldr_append
    rw [h'.history, hboth]
    exact history_recordAll_congr (h.noUndo.trans (noUndo_recordAll d changes).symm) h.history later

theorem step {change : Change} {after : List Char} (h : d.Written changes e)
    (hchange : change.Turns e.text after) :
    d.Written (change :: changes) ((e.record change).apply change).2 := by
  suffices hlater : e.Written [change] ((e.record change).apply change).2 from h.trans hlater
  refine ⟨?_, ?_, ?_, rfl⟩
  · rw [text_apply, text_record, hchange.applyTo_eq]
    exact .cons hchange (.nil _)
  · rw [timestamp_apply, timestamp_record]
    rfl
  · rw [noUndo_apply, noUndo_record]

/-! ### What follows -/

/-- The steps that can be undone are those that could be. -/
theorem undo_eq (h : d.Written changes e) : e.history.undo = d.history.undo := by
  rw [h.history]
  clear h
  induction changes with
  | nil => rfl
  | cons change changes ih =>
    rw [← ih]
    show ((d.recordAll changes).record change).history.undo = _
    unfold record
    split <;> rfl

theorem pending_eq (h : d.Written changes e) (hrecording : d.noUndo = false) :
    e.history.pending = changes ++ d.history.pending := by
  rw [h.history, history_recordAll hrecording]

theorem text_eq (h : d.Written [] e) : e.text = d.text := h.turns.eq_of_nil

theorem nil_iff (h : d.Written changes e) : changes = [] ↔ e.timestamp = d.timestamp := by
  rw [h.timestamp, Nat.add_eq_left, List.length_eq_zero_iff]

end Written

/-- Everything that was typed is written. -/
theorem Typed.exists_written (h : d.Typed e) : ∃ changes, d.Written changes e := by
  induction h with
  | refl => exact ⟨[], .refl d⟩
  | step _ hchange ih =>
    obtain ⟨changes, hwritten⟩ := ih
    exact ⟨_, hwritten.step hchange⟩

/-! ## One step of all that was written -/

section Step

variable (h : d.Written changes e) (hrecording : d.noUndo = false) (hsome : changes ≠ [])

include h hrecording hsome

/-- A commit closes one step with all the changes, and those that were pending before them. -/
theorem Written.history_commit :
    e.commit.history = ⟨(changes ++ d.history.pending) :: d.history.undo, [], []⟩ := by
  have hpending : (changes ++ d.history.pending).isEmpty = false := by
    cases changes with
    | nil => exact absurd rfl hsome
    | cons change changes => rfl
  rw [Document.commit, h.history, history_recordAll hrecording, History.commit, hpending,
    if_neg Bool.false_ne_true, if_neg hsome]

/-- If nothing was pending, undo takes back what was written, and redo makes it again. -/
theorem Written.undo_commit (hnone : d.history.pending = []) :
    e.commit.undo.1 ≠ .ok false ∧ e.commit.undo.2.text = d.text ∧
      e.commit.undo.2.redo.2.text = e.text := by
  have hhistory := h.history_commit hrecording hsome
  rw [hnone, List.append_nil] at hhistory
  -- nothing is pending any more, so undo has nothing to close
  have htwice : e.commit.commit = e.commit := commit_of_none (by rw [hhistory])
  have hundo := undo_of_cons (d := e.commit) (by rw [htwice, hhistory])
  have hback : TurnAll (changes.map Change.inverse) e.text d.text := by
    have hback := h.turns.inverse
    rwa [List.reverse_reverse] at hback
  have htext : (e.commit.replay (changes.map Change.inverse)).2.text = d.text := text_replay hback
  rw [htwice, hhistory] at hundo
  rw [hundo]
  refine ⟨unlessFailed_true_ne _, htext, ?_⟩
  rw [redo_of_cons (d := { (e.commit.replay _).2 with history := _ }) rfl]
  refine text_replay ?_
  show TurnAll changes.reverse (e.commit.replay _).2.text e.text
  rw [htext]
  exact h.turns

end Step

end Document

end ModalEdit
