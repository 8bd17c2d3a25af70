import Mathlib
import ModalEdit.Proofs.MovingCommands
import ModalEdit.Proofs.RecordedEdits

/-!
# Drafts leave an edition open

A draft of a context that is in an edition does not close undo steps. While that holds of every
draft of the document, and no key takes a step back or makes one again, all that drafts do to the
history is to record changes (`Moves.writes`), by induction on the moves. So the changes wait, with
what was pending before, until the edition around the drafts ends, and become one step with it
(`drafts_leave_edition_open`).

Whether a draft may close undo steps is told from its parent alone. A draft of a draft whose parent
is not itself in an edition may, and closes the step of an edition further out
(`draft_of_draft_closes_edition`).
-/

namespace ModalEdit

open Act

/-! ## What would close a step -/

/-- **`note.Meddles document`** — a step of the document was taken back or made again, or might have
been closed before the edition around it ended: by another client, or by a draft of a context that
was not in an edition. -/
def Happening.Meddles (document : Nat) (note : Happening) : Prop :=
  note.IsRewrite document ∨ (∃ client, note = .visited client) ∨ note = .drafted document false

/-- **`e.Writes document e'`** — from `e` to `e'`, changes have been made in the document and
recorded, and nothing else has happened to its text and its history. -/
structure Editor.Writes (document : Nat) (e e' : Editor) : Prop where
  stored : document < e'.store.length
  written : ∃ changes, (e.document document).Written changes (e'.document document)

namespace Editor

variable {document : Nat} {e e' e'' : Editor}

theorem Writes.refl (h : document < e.store.length) : e.Writes document e := ⟨h, [], .refl _⟩

theorem Writes.trans (h : e.Writes document e') (h' : e'.Writes document e'') :
    e.Writes document e'' := by
  obtain ⟨changes, hwritten⟩ := h.written
  obtain ⟨later, hlater⟩ := h'.written
  exact ⟨h'.stored, _, hwritten.trans hlater⟩

theorem Writes.keep (h : e.Writes document e') (hstore : e''.store = e'.store) :
    e.Writes document e'' :=
  ⟨hstore ▸ h.stored, document_congr hstore document ▸ h.written⟩

/-- One document is replaced by another one in which changes have been recorded. -/
theorem Writes.setDocument {id : Nat} {d : Document} (h : e.Writes document e')
    (hd : id = document → ∃ changes, (e'.document id).Written changes d) :
    e.Writes document (e'.setDocument id d) := by
  have hstored : document < (e'.setDocument id d).store.length := by
    rw [Editor.setDocument, List.length_set]
    exact h.stored
  refine h.trans ⟨hstored, ?_⟩
  rw [document_setDocument]
  split
  next hsame =>
    obtain ⟨rfl, -⟩ := hsame
    exact hd rfl
  next => exact ⟨[], .refl _⟩

/-- Listeners come and go, and documents are renamed, without a change. -/
theorem Writes.setAside {id : Nat} {d : Document} (h : e.Writes document e')
    (htext : d.text = (e'.document id).text) (htimestamp : d.timestamp = (e'.document id).timestamp)
    (hnoUndo : d.noUndo = (e'.document id).noUndo)
    (hhistory : d.history = (e'.document id).history) :
    e.Writes document (e'.setDocument id d) :=
  h.setDocument fun _ =>
    ⟨[], (Document.Written.refl _).aside htext htimestamp hnoUndo hhistory⟩

theorem Writes.release (h : e.Writes document e') (c : Context) :
    e.Writes document (e'.release c) :=
  h.setAside rfl rfl rfl rfl

theorem Writes.track (h : e.Writes document e') (id : Nat) (l : SelectionList) :
    e.Writes document (e'.setDocument id ((e'.document id).track l).2) :=
  h.setAside rfl rfl rfl rfl

theorem Writes.creating (h : e.Writes document e') (documents : NameMap Nat) (name text : String) :
    e.Writes document (e'.creating documents name text) := by
  refine ⟨?_, (document_creating h.stored documents name text).symm ▸ h.written⟩
  rw [Editor.creating, List.length_append]
  exact lt_of_lt_of_le h.stored (Nat.le_add_right _ _)

end Editor

namespace Scene

variable {document : Nat} {s t : Scene}

/-- Moves leave it to the same contexts to close undo steps. -/
theorem Moves.undoEnabled_eq (h : Moves s t) : t.context.undoEnabled = s.context.undoEnabled := by
  induction h with
  | trans _ _ ih ih' => exact ih'.trans ih
  | tables place tables => cases place <;> rfl
  | finish => rw [context_ended]
  | tracking _ _ _ ih => exact ih
  | _ => rfl

/-- **`s.IsQuiet document`** — the context is on another document, or does not close undo steps. -/
def IsQuiet (s : Scene) (document : Nat) : Prop :=
  s.context.document = document → s.context.undoEnabled = false

theorem Moves.isQuiet_iff (h : Moves s t) : t.IsQuiet document ↔ s.IsQuiet document := by
  unfold IsQuiet
  rw [h.context_eq.1, h.undoEnabled_eq]

theorem writes_ended (hstored : document < s.editor.store.length) (hquiet : s.IsQuiet document) :
    s.editor.Writes document s.ended.editor := by
  by_cases hlast : s.context.editionLevel - 1 = 0 ∧ s.context.undoEnabled = true
  · rw [ended_of_last hlast.1 hlast.2]
    refine (Editor.Writes.refl hstored).setDocument fun hon => ?_
    exact absurd (hquiet hon) (hlast.2 ▸ Bool.noConfusion)
  · rw [ended_of_open hlast]
    exact .refl hstored

/-- Undo and redo on another document. -/
theorem writes_rewritten (hstored : document < s.editor.store.length)
    (hother : s.context.document ≠ document) (note : Happening) (d : Document) :
    s.editor.Writes document (s.rewritten note d).editor := by
  have hjot : s.editor.Writes document (s.editor.jot note) := (Editor.Writes.refl hstored).keep rfl
  exact hjot.setDocument fun hon => absurd hon hother

/-- What is written in a draft has been written when the draft is dropped. -/
theorem writes_draft (hstored : document < s.editor.store.length)
    (h : document < s.drafted.editor.store.length → s.drafted.editor.Writes document t.editor)
    (note : Happening) : s.editor.Writes document ((t.editor.release t.context).jot note) := by
  have hdrafted : s.editor.Writes document s.drafted.editor :=
    (Editor.Writes.refl hstored).track s.context.document s.selections
  exact ((hdrafted.trans (h hdrafted.stored)).release t.context).keep rfl

/-- Hooks have run on a document that was created; it is not the one that is written. -/
theorem writes_opening (hstored : document < s.editor.store.length) (documents : NameMap Nat)
    (name text : String) :
    s.editor.Writes document (s.opening documents name text).editor ∧
      (s.opening documents name text).IsQuiet document := by
  have hcreated : s.editor.Writes document (s.editor.creating documents name text) :=
    (Editor.Writes.refl hstored).creating documents name text
  exact ⟨hcreated.track _ _, fun hon => absurd hon hstored.ne'⟩

/-- A draft does not close undo steps, if the journal does not tell otherwise. -/
theorem isQuiet_drafted
    (hnote : ¬ (Happening.drafted s.context.document s.context.isEditing).Meddles document) :
    s.drafted.IsQuiet document := by
  intro hon
  have hon : s.context.document = document := hon
  cases hediting : s.context.isEditing with
  | true => exact congrArg not hediting
  | false =>
    rw [hediting, hon] at hnote
    exact absurd (.inr (.inr rfl)) hnote

/-- **What moves write** — by induction on the moves: in a context that does not close undo steps,
none is closed, since its drafts do not close them either. -/
theorem Moves.writes (h : Moves s t) (hstored : document < s.editor.store.length)
    (hquiet : s.IsQuiet document) (hnotes : ∀ note ∈ s.since t, ¬ note.Meddles document) :
    s.editor.Writes document t.editor := by
  induction h with
  | refl => exact .refl hstored
  | @trans s t u hfirst hlater ih ih' =>
    rw [hfirst.since_trans hlater] at hnotes
    have hwritten := ih hstored hquiet fun note hnote => hnotes note (List.mem_append_left _ hnote)
    exact hwritten.trans (ih' hwritten.stored (hfirst.isQuiet_iff.mpr hquiet)
      fun note hnote => hnotes note (List.mem_append_right _ hnote))
  | note | rename | stray | tell => exact (Editor.Writes.refl hstored).keep rfl
  | tables place tables =>
    cases place with
    | editor => exact (Editor.Writes.refl hstored).keep rfl
    | document id => exact (Editor.Writes.refl hstored).setAside rfl rfl rfl rfl
    | window => exact .refl hstored
  | begin | turn => exact .refl hstored
  | finish => exact writes_ended hstored hquiet
  | type id htyped => exact (Editor.Writes.refl hstored).setDocument fun _ => htyped.exists_written
  | undo s =>
    have hnote : ¬ (Happening.undone s.context.document).Meddles document :=
      hnotes _ ((Moves.refl s).mem_since rfl rfl)
    exact writes_rewritten hstored (fun hon => hnote (.inl hon)) _ _
  | redo s =>
    have hnote : ¬ (Happening.redone s.context.document).Meddles document :=
      hnotes _ ((Moves.refl s).mem_since rfl rfl)
    exact writes_rewritten hstored (fun hon => hnote (.inl hon)) _ _
  | select => exact (Editor.Writes.refl hstored).setAside rfl rfl rfl rfl
  | @retitle s _ _ _ hrename =>
    obtain ⟨documents, id, -, rfl⟩ := Editor.renameDocument_eq hrename
    have hnames : s.editor.Writes document { s.editor with documents } :=
      (Editor.Writes.refl hstored).keep rfl
    exact hnames.setAside rfl rfl rfl rfl
  | @create s t name documents text _ hinner ih =>
    obtain ⟨hopening, hquiet'⟩ := writes_opening hstored documents name text
    have hinside := fun note hnote =>
      hnotes note (Editor.since_subset rfl [] (List.append_nil _).symm hnote)
    exact (hopening.trans (ih hopening.stored hquiet' hinside)).release t.context
  | @mute s t name documents text failed _ hinner ih =>
    obtain ⟨hopening, hquiet'⟩ := writes_opening hstored documents name text
    have hinside := fun note hnote => hnotes note (Editor.since_subset rfl _ rfl hnote)
    have hreleased := (hopening.trans (ih hopening.stored hquiet' hinside)).release t.context
    have hmuted : s.editor.Writes document
        ((t.editor.release t.context).muted s.editor.store.length failed) :=
      hreleased.setDocument fun hnew => absurd hnew hstored.ne'
    exact hmuted.keep rfl
  | @draft s t hinner ih =>
    have hinside := fun note hnote => hnotes note (Editor.since_subset rfl _ rfl hnote)
    have hquiet' : s.drafted.IsQuiet document :=
      isQuiet_drafted (hnotes _ (hinner.mem_since rfl rfl))
    exact writes_draft hstored (fun hstored' => ih hstored' hquiet' hinside) _
  | @tracking s t id l hinner ih =>
    have htracking : s.editor.Writes document (s.tracking id l).editor :=
      (Editor.Writes.refl hstored).track id l
    have hinside := fun note hnote =>
      hnotes note (Editor.since_subset rfl [] (List.append_nil _).symm hnote)
    exact (htracking.trans (ih htracking.stored hquiet hinside)).setAside rfl rfl rfl rfl
  | @client s t name other clients hcheckout hinner ih =>
    -- the journal would tell of the other client
    have hjournal := t.editor.journal_visited name t.context.forgetDrawing
    exact absurd (.inr (.inl ⟨name, rfl⟩)) (hnotes _ (hinner.mem_since rfl hjournal))

/-! ## Trees of drafts -/

/-- What is done in a context: command lines are executed, keys are pressed or replayed, or the same
is done in a draft of the context, or in the draft once per selection. -/
inductive Script where
  | line (env : Environment) (text : String)
  | press (keys : List Key)
  | replay (keys : List Key)
  | draft (itersel : Bool) (body : Script)
  | seq (first second : Script)

namespace Script

/-- Does what the script says. The second part of a sequence is done even if the first one fails. -/
def act : Script → Act Scene Unit
  | line env text => execute env text
  | press keys => pressAll execute keys
  | replay keys => replayKeys execute keys
  | draft itersel body => route { draft := true, itersel } body.act
  | seq first second => do
    let _ ← first.act.attempt
    second.act

/-- **`script.InDrafts`** — the script does nothing but in drafts. -/
def InDrafts : Script → Prop
  | draft _ _ => True
  | seq first second => first.InDrafts ∧ second.InDrafts
  | _ => False

theorem moving_act (script : Script) : Moving script.act := by
  induction script with
  | line env text => exact moving_execute env text
  | press keys => exact moving_pressAll moving_execute keys
  | replay keys => exact moving_replayKeys moving_execute keys
  | draft itersel body ih => exact obeys_route _ ih
  | seq first second ih ih' => exact ih.attempt.bind fun _ => ih'

end Script

/-- What is sent to a draft, once or once per selection, and to no other client, is done in a draft
of the context. -/
theorem perform_route_draft {flags : ContextFlags} {body : Act Scene Unit}
    (hdraft : flags.draft = true) (hborrow : (borrowClient flags).perform s = (.ok none, s))
    (h : Moving body) :
    ∃ act : Act Scene Unit, Moving act ∧
      (route flags body).perform s = (inDraft act).perform s := by
  have hroute : (route flags body).perform s = (inTarget flags body).perform s := by
    have hvalid : flags.validate = .ok () := by simp [ContextFlags.validate, hdraft]
    rw [route, hvalid]
    exact perform_bind_ok hborrow
  rw [hroute, inTarget, hdraft]
  cases flags.itersel with
  | false => exact ⟨body, h, rfl⟩
  | true =>
    refine ⟨withTracker s.context.document s.selections fun tracker =>
      eachSelection s.context.document tracker body (List.range s.selections.length), ?_, rfl⟩
    exact obeys_withTracker _ _ fun _ => obeys_eachSelection _ _ h _

/-- **What drafts write** — by induction on the script: drafts of a context that is in an edition
leave the context what it is, and only write. -/
theorem drafts_write (script : Script) (hscript : script.InDrafts)
    (hediting : s.context.isEditing = true) (hstored : s.context.document < s.editor.store.length)
    (hnotes : ∀ note ∈ s.since (script.act.perform s).2, ¬ note.Meddles s.context.document) :
    (script.act.perform s).2.context = s.context ∧
      s.editor.Writes s.context.document (script.act.perform s).2.editor := by
  induction script generalizing s with
  | draft itersel body =>
    obtain ⟨act, hact, hroute⟩ : ∃ act : Act Scene Unit, Moving act ∧
        (route { draft := true, itersel } body.act).perform s = (inDraft act).perform s :=
      perform_route_draft rfl rfl body.moving_act
    rw [Script.act, hroute, perform_inDraft] at hnotes ⊢
    have hquiet : s.drafted.IsQuiet s.context.document := fun _ => congrArg not hediting
    have hinside := fun note hnote => hnotes note (Editor.since_subset rfl _ rfl hnote)
    exact ⟨rfl, writes_draft hstored (fun h => (hact s.drafted).writes h hquiet hinside) _⟩
  | seq first second ih ih' =>
    have hfirst := first.moving_act s
    have hsecond := second.moving_act (first.act.perform s).2
    have hseq : ((first.seq second).act.perform s).2 =
        (second.act.perform (first.act.perform s).2).2 := by
      rw [Script.act, perform_bind_ok (perform_attempt _ s)]
    rw [hseq] at hnotes ⊢
    rw [hfirst.since_trans hsecond] at hnotes
    obtain ⟨hcontext, hwritten⟩ := ih hscript.1 hediting hstored fun note hnote =>
      hnotes note (List.mem_append_left _ hnote)
    rw [← hcontext] at hediting hwritten hnotes ⊢
    obtain ⟨hcontext', hwritten'⟩ := ih' hscript.2 hediting hwritten.stored fun note hnote =>
      hnotes note (List.mem_append_right _ hnote)
    exact ⟨hcontext', hwritten.trans hwritten'⟩
  | line | press | replay => exact absurd hscript id

/-! ## The end of the edition around them -/

/-- Ends as many editions of the context. -/
def endEditions : Nat → Act Scene Unit
  | 0 => pure ()
  | n + 1 => do
    endEdition
    endEditions n

theorem perform_endEditions_succ (n : Nat) (h : 0 < s.context.editionLevel) :
    (endEditions (n + 1)).perform s = (endEditions n).perform s.ended := by
  rw [endEditions, perform_bind_ok (perform_endEdition s), checked_of_editing h]

/-- As long as an edition stays open, nothing but the level of the context changes. -/
theorem perform_endEditions_of_lt {n : Nat} (h : n < s.context.editionLevel) :
    (endEditions n).perform s = (.ok (), { s with
      context := { s.context with editionLevel := s.context.editionLevel - n } }) := by
  induction n generalizing s with
  | zero => rfl
  | succ n ih =>
    have hopen : ¬(s.context.editionLevel - 1 = 0 ∧ s.context.undoEnabled = true) := by omega
    rw [perform_endEditions_succ n (by omega), ended_of_open hopen, ih (by dsimp only; omega),
      Nat.sub_sub, Nat.add_comm 1]

/-- The end of the outermost edition closes the undo step. -/
theorem document_endEditions (hlevel : 0 < s.context.editionLevel)
    (hstored : s.context.document < s.editor.store.length)
    (henabled : s.context.undoEnabled = true) :
    ((endEditions s.context.editionLevel).perform s).2.document = s.document.commit := by
  obtain ⟨n, hn⟩ := Nat.exists_eq_add_one.mpr hlevel
  rw [hn, perform_endEditions_succ n hlevel]
  clear hlevel
  induction n generalizing s with
  | zero =>
    rw [ended_of_last (by omega) henabled]
    exact (Editor.document_setDocument ..).trans (if_pos ⟨rfl, hstored⟩)
  | succ n ih =>
    have hopen : ¬(s.context.editionLevel - 1 = 0 ∧ s.context.undoEnabled = true) := by omega
    rw [ended_of_open hopen, perform_endEditions_succ n (by dsimp only; omega)]
    exact ih (s := { s with context := _ }) hstored henabled (by dsimp only; omega)

/-- **Drafts leave an edition open** — for every context that is in an edition and every tree of
drafts of it, whatever command lines and keys are done in them and whether they fail or not, if the
journal tells of nothing that meddles with the document: the context is what it was, and no undo
step is closed as long as an edition of the context stays open. If the document keeps a history, all
changes that were made wait with those that were pending before, and the end of the outermost
edition makes one step of them all. -/
theorem drafts_leave_edition_open (s : Scene) (script : Script) (hscript : script.InDrafts)
    (hediting : 0 < s.context.editionLevel) (hstored : s.context.document < s.editor.store.length)
    (hnotes : ∀ note ∈ s.since (script.act.perform s).2, ¬ note.Meddles s.context.document) :
    let d := s.document
    let t := (script.act.perform s).2
    let after := fun n => ((endEditions n).perform t).2.document
    t.context = s.context ∧
      (∀ n < s.context.editionLevel, (after n).undoDepth = d.undoDepth) ∧
      ∃ changes, TurnAll changes.reverse d.text t.document.text ∧
        t.document.timestamp = d.timestamp + changes.length ∧
        (d.noUndo = false →
          t.document.history.pending = changes ++ d.history.pending ∧
          (s.context.undoEnabled = true → changes ≠ [] →
            (after s.context.editionLevel).history.undo =
              (changes ++ d.history.pending) :: d.history.undo)) := by
  obtain ⟨hcontext, hstored', changes, hwritten⟩ :=
    drafts_write script hscript (decide_eq_true hediting) hstored hnotes
  intro d t after
  have hwritten : d.Written changes t.document := by
    rw [document, hcontext]
    exact hwritten
  refine ⟨hcontext, ?_, changes, hwritten.turns, hwritten.timestamp, ?_⟩
  · intro n hn
    have hopen : after n = t.document := by
      rw [← hcontext] at hn
      show ((endEditions n).perform t).2.document = _
      rw [perform_endEditions_of_lt hn]
      rfl
    rw [hopen, Document.undoDepth, hwritten.undo_eq]
    rfl
  · intro hrecording
    refine ⟨hwritten.pending_eq hrecording, ?_⟩
    intro henabled hsome
    have hclosed : after s.context.editionLevel = t.document.commit := by
      show ((endEditions s.context.editionLevel).perform t).2.document = _
      rw [← hcontext] at hediting hstored' henabled ⊢
      exact document_endEditions hediting hstored' henabled
    rw [hclosed, hwritten.history_commit hrecording hsome]

set_option maxRecDepth 100000 in
/-- In one draft, a hook on the key that is typed makes a draft of its own; in another one, the
selections are erased one by one. -/
theorem drafts_leave_edition_open_hooked :
    let onX : Hook HookBody :=
      ⟨"", ⟨"x", .item (.one (.range 120 120) 0)⟩, .commands "exec -draft iy<esc>"⟩
    let d : Document :=
      { name := "notes", text := ['a', 'b', 'c'], nextListener := 1
        listeners := [⟨0, .tracker ⟨[⟨⟨0, 0⟩, ⟨0, 1⟩, []⟩, ⟨⟨0, 2⟩, ⟨0, 3⟩, []⟩], 0⟩⟩]
        scopes := { hooks := ⟨[("InsertKey", [onX])]⟩ } }
    let s : Scene :=
      ⟨{ store := [d], commands := Command.coreTable },
        { name := "main", document := 0, tracker := 0, editionLevel := 2 }⟩
    let script : Script :=
      .seq (.draft false (.replay [.ofChar 'i', .ofChar 'x'])) (.draft true (.press [.ofChar 'd']))
    let t := (script.act.perform s).2
    script.InDrafts ∧ s.context.isEditing = true ∧
      s.since t = [.drafted 0 true, .drafted 0 true, .drafted 0 true] ∧
      t.document.text = ['y', 'x', 'b', 'y', 'x'] ∧ t.context = s.context ∧
      (∀ n < 2, ((endEditions n).perform t).2.document.undoDepth = 0) ∧
      ∃ step, ((endEditions 2).perform t).2.document.history.undo = [step] ∧ step.length = 6 := by
  intro onX d s script
  have hscript : script.InDrafts := ⟨trivial, trivial⟩
  have hrun : (fun t : Scene => (s.since t, t.document.text, t.document.timestamp))
      (script.act.perform s).2 =
        ([.drafted 0 true, .drafted 0 true, .drafted 0 true], ['y', 'x', 'b', 'y', 'x'], 6) := by
    cbv
  have hnotes : ∀ note ∈ s.since (script.act.perform s).2, ¬ note.Meddles 0 := by
    rw [(Prod.mk.inj hrun).1]
    simp [Happening.Meddles, Happening.IsRewrite]
  have hmain := drafts_leave_edition_open s script hscript Nat.two_pos Nat.zero_lt_one hnotes
  -- the run is not evaluated again
  generalize (script.act.perform s).2 = t at hrun hmain ⊢
  obtain ⟨hjournal, hrun⟩ := Prod.mk.inj hrun
  obtain ⟨htext, htimestamp⟩ := Prod.mk.inj hrun
  obtain ⟨hcontext, hopen, changes, -, hcount, hstep⟩ := hmain
  have hlength : changes.length = 6 := by
    have hcount : (6 : Nat) = 0 + changes.length := htimestamp.symm.trans hcount
    omega
  have hundo := (hstep rfl).2 rfl (List.ne_nil_of_length_eq_add_one hlength)
  rw [show s.document.history = {} from rfl, List.append_nil] at hundo
  exact ⟨hscript, rfl, hjournal, htext, hcontext, hopen, changes, hundo, hlength⟩

set_option maxRecDepth 100000 in
/-- A draft of a draft closes an undo step though an edition is open further out: its parent, the
draft, is not itself in one. -/
theorem draft_of_draft_closes_edition :
    let d : Document :=
      { name := "notes", text := ['a', 'b', 'c'], nextListener := 1
        listeners := [⟨0, .tracker default⟩] }
    let s : Scene :=
      ⟨{ store := [d], commands := Command.coreTable },
        { name := "main", document := 0, tracker := 0, editionLevel := 1 }⟩
    let script : Script := .draft false (.line {} "eval -draft 'exec ix<esc>'")
    let t := (script.act.perform s).2
    script.InDrafts ∧ s.context.isEditing = true ∧ s.document.undoDepth = 0 ∧
      s.since t = [.drafted 0 false, .drafted 0 true] ∧ t.document.text = ['x', 'a', 'b', 'c'] ∧
      t.context.isEditing = true ∧ t.document.undoDepth = 1 := by
  intro d s script t
  have hrun : (fun t : Scene =>
      (s.since t, t.document.text, t.context.isEditing, t.document.undoDepth))
        (script.act.perform s).2 =
          ([.drafted 0 false, .drafted 0 true], ['x', 'a', 'b', 'c'], true, 1) := by
    cbv
  simp only [Prod.mk.injEq] at hrun
  exact ⟨trivial, rfl, rfl, hrun⟩

end Scene

end ModalEdit
