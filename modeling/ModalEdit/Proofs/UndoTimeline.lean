import Mathlib.Data.List.Forall2
import ModalEdit.Proofs.DocumentRun

/-!
# Undo history as a timeline

A document that records its changes behaves like a cursor over a list of texts. `Timeline` is that
cursor: the texts that undo goes back to, the text in front of it, the texts that redo goes on to.
It knows nothing of offsets, of changes or of listeners; the document keeps no text but its own, and
groups of changes instead.

`Represents` ties the two together: the groups of the undo list lead, one after the other, from each
earlier text to the next, and those of the redo list lead on from the present one. Every operation
keeps it (`Represents.perform`), hence so does every run (`Represents.run`), and undo and redo put
back texts byte for byte (`history_is_linear`).
-/

namespace ModalEdit

open Text

/-! ## Timelines -/

/-- A cursor over a list of texts. -/
structure Timeline where
  /-- The text at the opening of each closed group behind the cursor, the latest first. -/
  past : List (List Char) := []
  /-- The text at the opening of the pending group, if there is one. -/
  opened : Option (List Char) := none
  present : List Char
  /-- The texts that were left by undoing, the one left last first. -/
  future : List (List Char) := []
  /-- There is never both a pending group and something to redo. -/
  exclusive : opened = none ∨ future = []

namespace Timeline

/-- The timeline of a text that was never changed. -/
def start (text : List Char) : Timeline where
  present := text
  exclusive := .inl rfl

/-- The text at which the group begins that the next modification belongs to. -/
def opening (t : Timeline) : List Char := t.opened.getD t.present

/-- Moves on to a text; what was undone before can then no longer be redone. -/
def record (t : Timeline) (text : List Char) : Timeline where
  past := t.past
  opened := some t.opening
  present := text
  exclusive := .inr rfl

/-- Closes the pending group. -/
def commit (t : Timeline) : Timeline :=
  match t.opened with
  | none => t
  | some text =>
    { past := text :: t.past, present := t.present, future := t.future, exclusive := .inl rfl }

/-- Closes the pending group and goes back to where the last closed one was opened. -/
def undo (t : Timeline) : Bool × Timeline :=
  match t.commit.past with
  | [] => (false, t.commit)
  | text :: past =>
    (true, { past, present := text, future := t.present :: t.future, exclusive := .inl rfl })

/-- Goes on to the text that was left last by undoing. -/
def redo (t : Timeline) : Bool × Timeline :=
  match t.future with
  | [] => (false, t)
  | text :: future =>
    (true, { past := t.present :: t.past, present := text, future, exclusive := .inl rfl })

/-- What an operation on a document does to the timeline. -/
def perform (t : Timeline) : Document.Operation → Bool × Timeline
  | .insert place added =>
    (true, t.record (takeBytes t.present (offset t.present place) ++ added ++
      dropBytes t.present (offset t.present place)))
  | .erase start stop =>
    if offset t.present stop ≤ offset t.present start then (true, t)
    else (true, t.record (takeBytes t.present (offset t.present start) ++
      dropBytes t.present (offset t.present stop)))
  | .commit => (true, t.commit)
  | .undo => t.undo
  | .redo => t.redo
  | .listen _ | .copy _ | .assign _ _ | .leave _ => (true, t)

/-- What operations in order do to the timeline, with their answers. -/
def run (t : Timeline) : List Document.Operation → List Bool × Timeline
  | [] => ([], t)
  | op :: ops => ((t.perform op).1 :: ((t.perform op).2.run ops).1, ((t.perform op).2.run ops).2)

end Timeline

/-! ## Groups that lead from text to text -/

/-- **`Along link groups text texts`** — from `text`, the groups lead to one of `texts` after the
other. -/
inductive Along (link : List Change → List Char → List Char → Prop) :
    List (List Change) → List Char → List (List Char) → Prop
  | nil (text : List Char) : Along link [] text []
  | cons {group : List Change} {groups : List (List Change)} {text next : List Char}
    {texts : List (List Char)} :
    link group text next → Along link groups next texts →
      Along link (group :: groups) text (next :: texts)

theorem Along.length_eq {link : List Change → List Char → List Char → Prop}
    {groups : List (List Change)} {text : List Char} {texts : List (List Char)}
    (h : Along link groups text texts) : groups.length = texts.length := by
  induction h with
  | nil => rfl
  | cons _ _ ih => rw [List.length_cons, List.length_cons, ih]

/-- **`Timeline.Represents t d`** — the history of `d` leads through the texts of `t`. The changes
of a group are kept latest first, so it is the reversed group that leads forward. -/
structure Timeline.Represents (t : Timeline) (d : Document) : Prop where
  recording : d.noUndo = false
  present : d.text = t.present
  pending : TurnAll d.history.pending.reverse t.opening t.present
  opened : d.history.pending = [] ↔ t.opened = none
  past : Along (fun group after before => TurnAll group.reverse before after)
    d.history.undo t.opening t.past
  future : Along (fun group before after => TurnAll group.reverse before after)
    d.history.redo t.present t.future

/-- An answer that reports what the timeline says, unless a listener failed. -/
def Reports (answer : Except SelectionError Bool) (did : Bool) : Prop :=
  answer = .ok did ∨ did = true ∧ ∃ e, answer = .error e

theorem reports_unlessFailed (failure : Option SelectionError) :
    Reports (Document.unlessFailed failure true) true := by
  cases failure with
  | none => exact .inl rfl
  | some e => exact .inr ⟨rfl, e, rfl⟩

/-! ## One operation -/

namespace Timeline

variable {t : Timeline} {d : Document}

theorem start_represents (name text : String) :
    (start text.toList).Represents (Document.ofText name text) where
  recording := rfl
  present := rfl
  pending := .nil _
  opened := by simp [Document.ofText, start]
  past := .nil _
  future := .nil _

/-- A recorded change joins the pending group, and what could be redone is gone. -/
theorem Represents.edit {change : Change} {after : List Char} (h : t.Represents d)
    (hchange : change.Turns d.text after) :
    (t.record after).Represents ((d.record change).apply change).2 := by
  have hrecord : d.record change = { d with history := d.history.record change } := by
    rw [Document.record, if_neg (by simp [h.recording])]
  rw [hrecord]
  refine ⟨h.recording, hchange.applyTo_eq, ?_, ?_, h.past, .nil _⟩
  · rw [Document.history_apply, History.record, List.reverse_cons]
    refine h.pending.concat ?_
    rwa [h.present] at hchange
  · simp [History.record, record]

theorem Represents.commit (h : t.Represents d) : t.commit.Represents d.commit := by
  unfold Timeline.commit Document.commit History.commit
  split
  next hopened =>
    -- no group is pending on either side
    rw [if_pos (by rw [h.opened.mpr hopened]; rfl)]
    exact h
  next text hopened =>
    have hpending : d.history.pending ≠ [] := by
      rw [ne_eq, h.opened, hopened]
      exact Option.some_ne_none text
    have hopening : t.opening = text := by rw [opening, hopened, Option.getD_some]
    -- the pending group becomes the last closed one, and leads on from where it was opened
    rw [if_neg (by simpa using hpending)]
    refine ⟨h.recording, h.present, .nil _, by simp, ?_, h.future⟩
    have hpast := h.past
    have hgroup := h.pending
    rw [hopening] at hpast hgroup
    exact .cons hgroup hpast

theorem opening_of_none (h : t.opened = none) : t.opening = t.present := by
  rw [opening, h, Option.getD_none]

@[simp] theorem opened_commit (t : Timeline) : t.commit.opened = none := by
  unfold Timeline.commit
  split
  next hopened => exact hopened
  next => rfl

@[simp] theorem present_commit (t : Timeline) : t.commit.present = t.present := by
  unfold Timeline.commit
  split <;> rfl

@[simp] theorem future_commit (t : Timeline) : t.commit.future = t.future := by
  unfold Timeline.commit
  split <;> rfl

/-- The last closed group leads to the present text, and its inverse back to where it was opened. -/
theorem Represents.last_group {group : List Change} {groups : List (List Change)}
    (h : t.Represents d) (hgroups : d.commit.history.undo = group :: groups) :
    ∃ text past, t.commit.past = text :: past ∧
      TurnAll group.reverse text t.present ∧
      TurnAll (group.map Change.inverse) d.commit.text text ∧
      Along (fun group after before => TurnAll group.reverse before after) groups text past := by
  have hpast := h.commit.past
  rw [opening_of_none t.opened_commit, present_commit, hgroups] at hpast
  generalize t.commit.past = texts at hpast
  cases hpast with
  | cons hgroup hrest =>
    refine ⟨_, _, rfl, hgroup, ?_, hrest⟩
    rw [h.commit.present, present_commit]
    simpa using hgroup.inverse

/-- The group that was undone last leads on from the present text. -/
theorem Represents.next_group {group : List Change} {groups : List (List Change)}
    (h : t.Represents d) (hgroups : d.history.redo = group :: groups) :
    ∃ text future, t.future = text :: future ∧ TurnAll group.reverse d.text text ∧
      Along (fun group before after => TurnAll group.reverse before after) groups text future := by
  have hfuture := h.future
  rw [hgroups, ← h.present] at hfuture
  generalize t.future = texts at hfuture
  cases hfuture with
  | cons hgroup hrest => exact ⟨_, _, rfl, hgroup, hrest⟩

/-- Undoing replays the last group backwards, which leads to where it was opened. -/
theorem Represents.undo (h : t.Represents d) :
    Reports d.undo.1 t.undo.1 ∧ t.undo.2.Represents d.undo.2 := by
  have hc := h.commit
  unfold Timeline.undo
  cases hgroups : d.commit.history.undo with
  | nil =>
    have hpast : t.commit.past = [] := by
      simpa [hgroups] using hc.past.length_eq.symm
    rw [hpast, Document.undo_of_nil hgroups]
    exact ⟨.inl rfl, hc⟩
  | cons group groups =>
    obtain ⟨text, past, hpast, hgroup, hback, hrest⟩ := h.last_group hgroups
    have hfuture := hc.future
    rw [present_commit, future_commit] at hfuture
    rw [hpast, Document.undo_of_cons hgroups, hc.opened.mpr t.opened_commit]
    refine ⟨reports_unlessFailed _, ?_, ?_, .nil _, by simp, hrest, .cons hgroup hfuture⟩
    · exact (Document.noUndo_replay _ _).trans hc.recording
    · exact Document.text_replay hback

/-- Redoing replays the group that was undone last, which leads to where it was left. -/
theorem Represents.redo (h : t.Represents d) :
    Reports d.redo.1 t.redo.1 ∧ t.redo.2.Represents d.redo.2 := by
  unfold Timeline.redo
  cases hgroups : d.history.redo with
  | nil =>
    have hfuture : t.future = [] := by
      simpa [hgroups] using h.future.length_eq.symm
    rw [hfuture, Document.redo_of_nil hgroups]
    exact ⟨.inl rfl, h⟩
  | cons group groups =>
    obtain ⟨text, future, hfuture, hgroup, hrest⟩ := h.next_group hgroups
    -- where there is something to redo there is no pending group
    have hopened : t.opened = none := t.exclusive.resolve_right (by simp [hfuture])
    have hpast := h.past
    rw [opening_of_none hopened] at hpast
    rw [hfuture, Document.redo_of_cons hgroups, h.opened.mpr hopened]
    have hundone := h.present ▸ hgroup
    refine ⟨reports_unlessFailed _, ?_, ?_, .nil _, by simp, .cons hundone hpast, hrest⟩
    · exact (Document.noUndo_replay _ _).trans h.recording
    · exact Document.text_replay hgroup

/-- Of a document, only the text, the history and whether it is kept are represented. -/
theorem Represents.of_eq {d' : Document} (h : t.Represents d) (hnoUndo : d'.noUndo = d.noUndo)
    (htext : d'.text = d.text) (hhistory : d'.history = d.history) : t.Represents d' where
  recording := hnoUndo.trans h.recording
  present := htext.trans h.present
  pending := hhistory ▸ h.pending
  opened := hhistory ▸ h.opened
  past := hhistory ▸ h.past
  future := hhistory ▸ h.future

/-- **One step** — every operation does to the document what it does to the timeline, and reports
the same. -/
theorem Represents.perform (h : t.Represents d) (op : Document.Operation) :
    Reports (d.perform op).1 (t.perform op).1 ∧ (t.perform op).2.Represents (d.perform op).2 := by
  cases op with
  | insert place added =>
    constructor
    · show Reports ((d.insert place added).1.map fun _ => true) true
      rw [Document.insert_fst, Document.map_unlessFailed]
      exact reports_unlessFailed _
    · have hedit := h.edit (d.insertion_turns place added)
      rwa [← Document.insert_snd, Document.text_insert, h.present] at hedit
  | erase start stop =>
    show Reports ((d.erase start stop).1.map fun _ => true) (t.perform (.erase start stop)).1 ∧
      (t.perform (.erase start stop)).2.Represents (d.erase start stop).2
    rw [Timeline.perform, ← h.present]
    split
    next hle =>
      rw [d.erase_of_le _ _ hle]
      exact ⟨.inl rfl, h⟩
    next hle =>
      have hlt := Nat.not_le.mp hle
      have hedit := h.edit (Document.erasure_turns hlt)
      rw [← Document.erase_snd hlt, Document.text_erase hlt] at hedit
      refine ⟨?_, hedit⟩
      rw [Document.erase_fst hlt, Document.map_unlessFailed]
      exact reports_unlessFailed _
  | commit => exact ⟨.inl rfl, h.commit⟩
  | undo => exact h.undo
  | redo => exact h.redo
  | listen role => exact ⟨.inl rfl, h.of_eq rfl rfl rfl⟩
  | copy tracker =>
    rw [Document.perform]
    split
    · exact ⟨.inl rfl, h.of_eq rfl rfl rfl⟩
    · exact ⟨.inl rfl, h⟩
  | assign tracker selections =>
    rw [Document.perform, Document.assign]
    cases (selections.mapCoords (clamp d.text)).validate with
    | ok _ => exact ⟨.inl rfl, h.of_eq rfl rfl rfl⟩
    | error e => exact ⟨.inr ⟨rfl, e, rfl⟩, h⟩
  | leave listener => exact ⟨.inl rfl, h.of_eq rfl rfl rfl⟩

/-! ## Whole runs -/

/-- **A whole run** — by induction on the operations, each step being `Represents.perform`. -/
theorem Represents.run (h : t.Represents d) (ops : List Document.Operation) :
    List.Forall₂ Reports (d.run ops).1 (t.run ops).1 ∧ (t.run ops).2.Represents (d.run ops).2 := by
  induction ops generalizing t d with
  | nil => exact ⟨.nil, h⟩
  | cons op ops ih =>
    obtain ⟨hreports, hstep⟩ := h.perform op
    obtain ⟨hrest, hrun⟩ := ih hstep
    exact ⟨.cons hreports hrest, hrun⟩

/-- Quiet operations leave a timeline alone that has no pending group. -/
theorem run_quiet {ops : List Document.Operation} (hopened : t.opened = none)
    (h : ∀ op ∈ ops, op.IsQuiet t.present) : (t.run ops).2 = t := by
  induction ops with
  | nil => rfl
  | cons op ops ih =>
    obtain ⟨hop, hops⟩ := List.forall_mem_cons.mp h
    have hstep : (t.perform op).2 = t := by
      cases op with
      | erase start stop =>
        have hle : offset t.present stop ≤ offset t.present start := hop
        rw [perform, if_pos hle]
      | commit => simp only [perform, Timeline.commit, hopened]
      | insert | undo | redo => exact hop.elim
      | listen | copy | assign | leave => rfl
    rw [run, hstep]
    exact ih hops

theorem opened_undo (t : Timeline) : t.undo.2.opened = none := by
  unfold Timeline.undo
  split
  · exact t.opened_commit
  · rfl

/-- What undo has left, redo puts back. -/
theorem present_redo_undo (h : t.undo.1 = true) : t.undo.2.redo.2.present = t.present := by
  unfold Timeline.undo at h ⊢
  split at h
  · simp at h
  · rfl

end Timeline

/-- **Undo history is linear and exact** — after every run of operations, whatever the listeners
answer on the way, the document is where the timeline is, `undoDepth` counts the groups behind the
cursor, and every answer was what the timeline reports unless a listener failed. Undo and redo that
report `false` change nothing. And after an undo that did something, with nothing recorded in
between, redo puts back the text that the undo has left; `ops` may itself end in such undos. -/
theorem Document.history_is_linear (name text : String) (ops : List Document.Operation) :
    let d := ((Document.ofText name text).run ops).2
    let t := ((Timeline.start text.toList).run ops).2
    List.Forall₂ Reports ((Document.ofText name text).run ops).1
        ((Timeline.start text.toList).run ops).1 ∧
      d.text = t.present ∧ d.undoDepth = t.past.length ∧
      (d.undo.1 = .ok false → d.undo.2 = d) ∧ (d.redo.1 = .ok false → d.redo.2 = d) ∧
      ∀ quiet : List Document.Operation, (∀ op ∈ quiet, op.IsQuiet d.undo.2.text) →
        d.undo.1 ≠ .ok false → ((d.undo.2.run quiet).2.redo).2.text = d.text := by
  intro d t
  obtain ⟨hreports, h⟩ := (Timeline.start_represents name text).run ops
  refine ⟨hreports, h.present, h.past.length_eq, Document.undo_of_false, Document.redo_of_false, ?_⟩
  intro quiet hquiet hundo
  obtain ⟨hdid, hback⟩ := h.undo
  -- nothing is recorded in between, so the timeline is still where undo has left it
  have hquiet' := Timeline.run_quiet t.opened_undo (hback.present ▸ hquiet)
  have hredo := (hback.run quiet).2.redo.2
  rw [hquiet'] at hredo
  have htrue : t.undo.1 = true := by
    rcases hdid with hok | ⟨htrue, -⟩
    · exact Bool.of_not_eq_false fun hfalse => hundo (hok.trans (by rw [hfalse]))
    · exact htrue
  rw [hredo.present, Timeline.present_redo_undo htrue, h.present]

end ModalEdit
