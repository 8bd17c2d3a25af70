import ModalEdit.Proofs.ClientSlots
import ModalEdit.Proofs.CommandMoves

/-!
# Commands leave the trackers of others alone

A tracker that belongs to no client and to no context at work is out of reach: commands can change
the text, of which the tracker hears, but they cannot assign to the tracker or drop it
(`Moves.spares`). That the history of the document can be replayed is kept along with it, since the
changes that undo and redo make have to fit.
-/

namespace ModalEdit

open Text

/-! ## Trackers out of reach -/

/-- **`c.IsApart document tracker`** — the tracker of the document is not that of the context. -/
def Context.IsApart (c : Context) (document tracker : Nat) : Prop :=
  c.document = document → c.tracker ≠ tracker

/-- **`e.Guards document tracker`** — the document has issued the tracker, and it is not that of a
client; the history of the document can be replayed. -/
structure Editor.Guards (e : Editor) (document tracker : Nat) : Prop where
  stored : document < e.store.length
  issued : tracker < (e.document document).nextListener
  replayable : (e.document document).Replayable
  clients : ∀ ctx, e.clients.Holds ctx → ctx.IsApart document tracker

/-- **`e.Spares document tracker alone e'`** — from `e` to `e'`, the tracker stays guarded, and the
document leaves it what it was. -/
structure Editor.Spares (document tracker : Nat) (alone : Prop) (e e' : Editor) : Prop where
  guards : e'.Guards document tracker
  leaves : (e.document document).Leaves tracker alone (e'.document document)

namespace Editor

variable {document tracker : Nat} {alone alone' : Prop} {e e' e'' : Editor}

theorem Spares.trans (h : e.Spares document tracker alone e')
    (h' : e'.Spares document tracker alone e'') : e.Spares document tracker alone e'' :=
  ⟨h'.guards, h.leaves.trans h'.leaves⟩

theorem Spares.of_alone (h : e.Spares document tracker alone e') (halone : alone) :
    e.Spares document tracker alone' e' :=
  ⟨h.guards, h.leaves.of_alone halone⟩

/-- The document stays as it is, and no client gets the tracker. -/
theorem Guards.same (h : e.Guards document tracker) (hstored : document < e'.store.length)
    (hdocument : e'.document document = e.document document)
    (hclients : ∀ ctx, e'.clients.Holds ctx → ctx.IsApart document tracker) :
    e.Spares document tracker alone e' := by
  refine ⟨⟨hstored, ?_, ?_, hclients⟩, ?_⟩
  · rw [hdocument]
    exact h.issued
  · rw [hdocument]
    exact h.replayable
  · rw [hdocument]
    exact .refl h.replayable

theorem Guards.keep (h : e.Guards document tracker) (hstore : e'.store = e.store)
    (hclients : ∀ ctx, e'.clients.Holds ctx → ctx.IsApart document tracker) :
    e.Spares document tracker alone e' :=
  h.same (hstore ▸ h.stored) (document_congr hstore document) hclients

theorem Guards.refl (h : e.Guards document tracker) : e.Spares document tracker alone e :=
  h.keep rfl h.clients

/-- One document is replaced by one that leaves the tracker what it was. -/
theorem Guards.setDocument {id : Nat} {d : Document} (h : e.Guards document tracker)
    (hd : id = document → (e.document document).Leaves tracker alone d) :
    e.Spares document tracker alone (e.setDocument id d) := by
  have hstored : document < (e.setDocument id d).store.length := by
    rw [Editor.setDocument, List.length_set]
    exact h.stored
  by_cases hid : id = document
  · subst hid
    have hleaves := hd rfl
    have hdocument : (e.setDocument id d).document id = d := by
      rw [document_setDocument, if_pos ⟨rfl, h.stored⟩]
    refine ⟨⟨hstored, ?_, ?_, h.clients⟩, ?_⟩
    · rw [hdocument]
      exact lt_of_lt_of_le h.issued hleaves.counted
    · rw [hdocument]
      exact hleaves.replayable
    · rw [hdocument]
      exact hleaves
  · refine h.same hstored ?_ h.clients
    rw [document_setDocument, if_neg fun hsame => hid hsame.1.symm]

/-- A listener that comes is given a number that was not issued before. -/
theorem Guards.track (h : e.Guards document tracker) (id : Nat) (l : SelectionList) :
    e.Spares document tracker alone (e.setDocument id ((e.document id).track l).2) := by
  refine h.setDocument ?_
  intro hid
  subst hid
  exact Document.leaves_subscribe h.replayable h.issued _

theorem Guards.nextListener_ne (h : e.Guards document tracker) {id : Nat} (hid : id = document) :
    (e.document id).nextListener ≠ tracker := by
  subst hid
  exact h.issued.ne'

/-- A context that is dropped takes along its own tracker only. -/
theorem Guards.release {c : Context} (h : e.Guards document tracker)
    (hc : c.IsApart document tracker) :
    e.Spares document tracker alone (e.release c) := by
  refine h.setDocument ?_
  intro hon
  rw [hon]
  exact Document.leaves_unsubscribe h.replayable (hc hon).symm

theorem Guards.jot (h : e.Guards document tracker) (happening : Happening) :
    e.Spares document tracker alone (e.jot happening) :=
  h.keep rfl h.clients

/-- A new document gets a number of its own. -/
theorem Guards.creating (h : e.Guards document tracker) (documents : NameMap Nat)
    (name text : String) :
    e.Spares document tracker alone (e.creating documents name text) := by
  refine h.same ?_ (document_creating h.stored documents name text) h.clients
  rw [Editor.creating, List.length_append]
  exact lt_of_lt_of_le h.stored (Nat.le_add_right _ _)

/-- Renaming a document leaves its listeners and its text. -/
theorem Guards.renameDocument {source target : String} (h : e.Guards document tracker)
    (hrename : e.renameDocument source target = .ok e') :
    e.Spares document tracker alone e' := by
  obtain ⟨documents, id, -, rfl⟩ := Editor.renameDocument_eq hrename
  have hnames : e.Spares document tracker alone { e with documents } := h.keep rfl h.clients
  refine hnames.trans (hnames.guards.setDocument fun hid => ?_)
  subst hid
  exact .of_aside h.replayable le_rfl rfl rfl rfl rfl

/-- Putting a context back drops no tracker but its own or that of a client. -/
theorem Guards.checkin {c : Context} (h : e.Guards document tracker) (name : String)
    (hc : c.IsApart document tracker) :
    e.Spares document tracker alone (e.checkin name c) := by
  obtain ⟨hdropped, hheld⟩ := e.clients.holds_of_checkin name c
  have hkept : e.Spares document tracker alone
      { e with clients := (e.clients.checkin name c).2 } := by
    refine h.keep rfl ?_
    intro held hmem
    rcases hheld held hmem with rfl | hold
    · exact hc
    · exact h.clients held hold
  unfold Editor.checkin
  dsimp only
  split
  next old hold =>
    refine hkept.trans (hkept.guards.release ?_)
    rcases hdropped old hold with rfl | hmem
    · exact hc
    · exact h.clients old hmem
  next => exact hkept

end Editor

/-! ## All moves -/

namespace Scene

variable {document tracker : Nat} {s t : Scene}

theorem Moves.isApart_iff (h : Moves s t) :
    t.context.IsApart document tracker ↔ s.context.IsApart document tracker := by
  unfold Context.IsApart
  rw [h.context_eq.1, h.context_eq.2]

/-- The end of an edition changes the document by a commit at most. -/
theorem spares_ended (hs : s.editor.Guards document tracker) {alone : Prop} :
    s.editor.Spares document tracker alone s.ended.editor := by
  unfold ended
  dsimp only
  split
  · refine hs.setDocument ?_
    intro hid
    subst hid
    exact Document.leaves_perform hs.replayable .commit trivial
  · exact hs.refl

/-- Undo and redo change the document, and the journal. -/
theorem spares_rewritten (hs : s.editor.Guards document tracker) {alone : Prop}
    (op : Document.Operation) (hop : op.IsEdit) (happening : Happening) :
    s.editor.Spares document tracker alone
      (s.rewritten happening (s.document.perform op).2).editor := by
  have hjot : s.editor.Spares document tracker alone (s.editor.jot happening) := hs.jot happening
  refine hjot.trans (hjot.guards.setDocument fun hid => ?_)
  subst hid
  exact Document.leaves_perform hs.replayable op hop

/-- The context in which hooks run on a new document has a tracker of that document. -/
theorem spares_opening (hs : s.editor.Guards document tracker) (alone : Prop)
    (documents : NameMap Nat) (name text : String) :
    s.editor.Spares document tracker alone (s.opening documents name text).editor ∧
      (s.opening documents name text).context.IsApart document tracker := by
  have hcreated : s.editor.Spares document tracker alone (s.editor.creating documents name text) :=
    hs.creating documents name text
  exact ⟨hcreated.trans (hcreated.guards.track _ _), fun hon => absurd hon hs.stored.ne'⟩

/-- **Out of reach** — by induction on the moves: none drops a guarded tracker, and if the context
has another one, the tracker only hears of changes of the document. -/
theorem Moves.spares (h : Moves s t) (hs : s.editor.Guards document tracker) :
    s.editor.Spares document tracker (s.context.IsApart document tracker) t.editor := by
  induction h with
  | refl => exact hs.refl
  | trans hfirst _ ih ih' =>
    have hstep := ih hs
    have hlater := ih' hstep.guards
    rw [hfirst.isApart_iff] at hlater
    exact hstep.trans hlater
  | note => exact hs.keep rfl hs.clients
  | tables place tables =>
    cases place with
    | editor => exact hs.keep rfl hs.clients
    | document id =>
      refine hs.setDocument ?_
      intro hid
      subst hid
      exact .of_aside hs.replayable le_rfl rfl rfl rfl rfl
    | window => exact hs.refl
  | begin | turn => exact hs.refl
  | finish => exact spares_ended hs
  | stray | tell => exact hs.jot _
  | type id htyped =>
    refine hs.setDocument ?_
    intro hid
    subst hid
    exact htyped.leaves hs.replayable
  | undo => exact spares_rewritten hs .undo trivial _
  | redo => exact spares_rewritten hs .redo trivial _
  | select x =>
    refine hs.setDocument ?_
    intro hid
    subst hid
    exact Document.leaves_giving hs.replayable (fun halone => (halone rfl).symm) _
  | retitle hrename => exact hs.renameDocument hrename
  | rename hrename =>
    refine hs.keep rfl ?_
    intro ctx hctx
    obtain ⟨held, given, hheld, rfl⟩ := Clients.holds_of_rename hrename hctx
    exact hs.clients held hheld
  | @create s t name documents text _ hinner ih =>
    obtain ⟨hfirst, hapart⟩ := spares_opening hs (s.context.IsApart document tracker) documents
      name text
    have hafter := hfirst.trans ((ih hfirst.guards).of_alone hapart)
    exact hafter.trans (hafter.guards.release (hinner.isApart_iff.mpr hapart))
  | @mute s t name documents text failed _ hinner ih =>
    obtain ⟨hfirst, hapart⟩ := spares_opening hs (s.context.IsApart document tracker) documents
      name text
    have hafter := hfirst.trans ((ih hfirst.guards).of_alone hapart)
    have hreleased := hafter.trans (hafter.guards.release (hinner.isApart_iff.mpr hapart))
    -- the document that stops recording is not the one whose tracker is guarded
    have hmuted : s.editor.Spares document tracker (s.context.IsApart document tracker)
        ((t.editor.release t.context).muted s.editor.store.length failed) :=
      hreleased.trans (hreleased.guards.setDocument fun hid => absurd hid hs.stored.ne')
    exact hmuted.trans (hmuted.guards.jot _)
  | @draft s t hinner ih =>
    have hfirst : s.editor.Spares document tracker (s.context.IsApart document tracker)
        s.drafted.editor := hs.track s.context.document s.selections
    -- the tracker of the draft was not issued before
    have hapart : s.drafted.context.IsApart document tracker := hs.nextListener_ne
    have hafter := hfirst.trans ((ih hfirst.guards).of_alone hapart)
    have hreleased := hafter.trans (hafter.guards.release (hinner.isApart_iff.mpr hapart))
    exact hreleased.trans (hreleased.guards.jot _)
  | @tracking s t id l hinner ih =>
    have hfirst : s.editor.Spares document tracker (s.context.IsApart document tracker) _ :=
      hs.track id l
    have hafter := hfirst.trans (ih hfirst.guards)
    refine hafter.trans (hafter.guards.setDocument fun hid => ?_)
    subst hid
    exact Document.leaves_unsubscribe hafter.guards.replayable (hs.nextListener_ne rfl).symm
  | @client s t name other clients hcheckout hinner ih =>
    obtain ⟨hother, hheld⟩ := Clients.holds_of_checkout hcheckout
    have hfirst : s.editor.Spares document tracker (s.context.IsApart document tracker)
        { s.editor with clients } :=
      hs.keep rfl fun ctx hctx => hs.clients ctx (hheld ctx hctx)
    -- the context was in its slot, so the guarded tracker is not its own
    have hapart : other.IsApart document tracker := hs.clients other hother
    have hafter := hfirst.trans ((ih hfirst.guards).of_alone hapart)
    have hreturned : t.context.forgetDrawing.IsApart document tracker :=
      hinner.isApart_iff.mpr hapart
    have hback := hafter.trans (hafter.guards.checkin name hreturned)
    exact hback.trans (hback.guards.jot _)

end Scene

end ModalEdit
