import ModalEdit.Proofs.Audience
import ModalEdit.Proofs.ClientCustody
import ModalEdit.Proofs.DraftEditions

/-!
# A draft leaves no trace of its own

What is done in a draft of a context can change the document, of which every listener hears, and the
tables and registers that all share. The draft itself, and what it was made of, is gone afterwards
(`draft_leaves_no_trace`): the context is what it was, its selections have moved with the changes
and with nothing else, and the document has the listeners that it had.

This is an induction on the moves of a command line (`Moves.informs`): drafts, and trackers of the
selections that are run through, bring listeners of their own and take them along again
(`Hosts.without`). Only a visit to another client can take along more, if the client has lost its
slot by the time its context comes back (`draft_drops_listener_of_client`).
-/

namespace ModalEdit

open Act

/-! ## Documents with guests -/

/-- **`e.IsGuest document tracker c`** — if the context is on the document, it has a tracker there
that is not the one that is followed. -/
def Editor.IsGuest (document tracker : Nat) (e : Editor) (c : Context) : Prop :=
  c.document = document → c.tracker ≠ tracker ∧ (e.document document).Lends c.tracker

/-- **`e.Hosts document tracker`** — the document exists, its listeners have ids of their own, the
tracker is one of them, and the clients have others. -/
structure Editor.Hosts (document tracker : Nat) (e : Editor) : Prop where
  stored : document < e.store.length
  listed : (e.document document).Listed
  tracked : ((e.document document).tracked? tracker).isSome
  clients : ∀ ctx, e.clients.Holds ctx → e.IsGuest document tracker ctx

/-- **`e.Informs document tracker e'`** — from `e` to `e'`, the listeners of the document have heard
of all its changes, and nothing else has become of them. -/
structure Editor.Informs (document tracker : Nat) (e e' : Editor) : Prop where
  hosts : e'.Hosts document tracker
  hears : ∃ events, (e.document document).Hears tracker events (e'.document document)

namespace Editor

variable {document tracker : Nat} {e e' e'' : Editor}

theorem Informs.trans (h : e.Informs document tracker e') (h' : e'.Informs document tracker e'') :
    e.Informs document tracker e'' := by
  obtain ⟨events, hevents⟩ := h.hears
  obtain ⟨later, hlater⟩ := h'.hears
  exact ⟨h'.hosts, _, hevents.trans hlater⟩

/-- Guests stay guests. -/
theorem Informs.isGuest (h : e.Informs document tracker e') {c : Context}
    (hc : e.IsGuest document tracker c) : e'.IsGuest document tracker c := by
  obtain ⟨events, hevents⟩ := h.hears
  exact fun hon => ⟨(hc hon).1, hevents.lends (hc hon).2⟩

/-- The document changes in a way that its listeners hear of, and no client gets the tracker. -/
theorem Hosts.informs (h : e.Hosts document tracker) {events : List Event}
    (hstored : document < e'.store.length)
    (hhears : (e.document document).Hears tracker events (e'.document document))
    (hclients : ∀ ctx, e'.clients.Holds ctx → e.IsGuest document tracker ctx) :
    e.Informs document tracker e' := by
  obtain ⟨l, hl⟩ := Option.isSome_iff_exists.mp h.tracked
  refine ⟨⟨hstored, hhears.listed h.listed, ?_, fun ctx hctx hon => ?_⟩, events, hhears⟩
  · exact Option.isSome_of_eq_some (hhears.tracked h.listed hl)
  · obtain ⟨hne, hlends⟩ := hclients ctx hctx hon
    exact ⟨hne, hhears.lends hlends⟩

theorem Hosts.same (h : e.Hosts document tracker) (hstored : document < e'.store.length)
    (hdocument : e'.document document = e.document document)
    (hclients : ∀ ctx, e'.clients.Holds ctx → e.IsGuest document tracker ctx) :
    e.Informs document tracker e' := by
  have hhears : (e.document document).Hears tracker [] (e'.document document) :=
    hdocument ▸ Document.Hears.refl _
  exact h.informs hstored hhears hclients

theorem Hosts.keep (h : e.Hosts document tracker) (hstore : e'.store = e.store)
    (hclients : ∀ ctx, e'.clients.Holds ctx → e.IsGuest document tracker ctx) :
    e.Informs document tracker e' :=
  h.same (hstore ▸ h.stored) (document_congr hstore document) hclients

theorem Hosts.refl (h : e.Hosts document tracker) : e.Informs document tracker e :=
  h.keep rfl h.clients

/-- One document is replaced by one whose listeners have heard of all changes. -/
theorem Hosts.setDocument {id : Nat} {d : Document} (h : e.Hosts document tracker)
    (hd : id = document → ∃ events, (e.document document).Hears tracker events d) :
    e.Informs document tracker (e.setDocument id d) := by
  have hstored : document < (e.setDocument id d).store.length := by
    rw [Editor.setDocument, List.length_set]
    exact h.stored
  by_cases hid : id = document
  · subst hid
    obtain ⟨events, hevents⟩ := hd rfl
    have hdocument : (e.setDocument id d).document id = d := by
      rw [document_setDocument, if_pos ⟨rfl, h.stored⟩]
    exact h.informs hstored (hdocument ▸ hevents) h.clients
  · refine h.same hstored ?_ h.clients
    rw [document_setDocument, if_neg fun hsame => hid hsame.1.symm]

/-- Something is changed that listeners do not hear of. -/
theorem Hosts.setSilent {id : Nat} {d : Document} (h : e.Hosts document tracker)
    (hcounted : d.nextListener = (e.document id).nextListener)
    (htimestamp : d.timestamp = (e.document id).timestamp) (hheard : d.heard = (e.document id).heard)
    (haudience : d.audience = (e.document id).audience) :
    e.Informs document tracker (e.setDocument id d) := by
  refine h.setDocument ?_
  rintro rfl
  exact ⟨[], .silent hcounted htimestamp hheard haudience⟩

/-- A new document gets a number of its own. -/
theorem Hosts.creating (h : e.Hosts document tracker) (documents : NameMap Nat)
    (name text : String) : e.Informs document tracker (e.creating documents name text) := by
  refine h.same ?_ (document_creating h.stored documents name text) h.clients
  rw [Editor.creating, List.length_append]
  exact lt_of_lt_of_le h.stored (Nat.le_add_right _ _)

/-! ## Trackers that come and go -/

/-- The editor with one more tracker of a document. -/
def tracking (e : Editor) (id : Nat) (l : SelectionList) : Editor :=
  e.setDocument id ((e.document id).track l).2

theorem document_tracking {id : Nat} (h : id < e.store.length) (l : SelectionList) :
    (e.tracking id l).document id = ((e.document id).track l).2 :=
  (document_setDocument _ _ _ _).trans (if_pos ⟨rfl, h⟩)

theorem document_tracking_of_ne {id other : Nat} (h : other ≠ id) (l : SelectionList) :
    (e.tracking id l).document other = e.document other :=
  (document_setDocument _ _ _ _).trans (if_neg fun hsame => h hsame.1)

/-- The id of the next listener is not that of the tracker. -/
theorem Hosts.tracker_lt (h : e.Hosts document tracker) :
    tracker < (e.document document).nextListener := by
  obtain ⟨held, hheld⟩ := Option.isSome_iff_exists.mp h.tracked
  exact h.listed.issued _ ((Document.tracked?_eq_some_iff_mem h.listed).mp hheld)

theorem Hosts.tracking (h : e.Hosts document tracker) (id : Nat) (l : SelectionList) :
    (e.tracking id l).Hosts document tracker := by
  by_cases hid : id = document
  · subst hid
    refine ⟨?_, ?_, ?_, fun ctx hctx hon => ?_⟩
    · rw [Editor.tracking, Editor.setDocument, List.length_set]
      exact h.stored
    · rw [document_tracking h.stored]
      exact h.listed.track l
    · rw [document_tracking h.stored, Document.track,
        Document.tracked?_subscribe h.tracker_lt.ne]
      exact h.tracked
    · rw [document_tracking h.stored]
      exact ⟨(h.clients ctx hctx hon).1, (h.clients ctx hctx hon).2.track l⟩
  · exact (h.setDocument fun hsame => absurd hsame hid).hosts

/-- A new tracker is not the one that is followed. -/
theorem Hosts.isGuest_tracking (h : e.Hosts document tracker) (id : Nat) (l : SelectionList)
    {c : Context} (hdocument : c.document = id)
    (htracker : c.tracker = (e.document id).nextListener) :
    (e.tracking id l).IsGuest document tracker c := by
  intro hon
  obtain rfl : id = document := hdocument.symm.trans hon
  rw [document_tracking h.stored, htracker]
  exact ⟨h.tracker_lt.ne', h.listed.lends_track l⟩

/-- Those who had come to the context are guests still when there is one tracker more. -/
theorem IsGuest.tracking {c : Context} (hc : e.IsGuest document tracker c)
    (h : e.Hosts document tracker) (id : Nat) (l : SelectionList) :
    (e.tracking id l).IsGuest document tracker c := by
  intro hon
  obtain ⟨hne, hlends⟩ := hc hon
  refine ⟨hne, ?_⟩
  by_cases hid : document = id
  · subst hid
    rw [document_tracking h.stored]
    exact hlends.track l
  · rwa [document_tracking_of_ne hid]

/-- **Without a trace** — a tracker is added, something is done, and the tracker is dropped. -/
theorem Hosts.without (h : e.Hosts document tracker) {id : Nat} {l : SelectionList}
    (h' : (e.tracking id l).Informs document tracker e') :
    e.Informs document tracker
      (e'.modifyDocument id (·.unsubscribe (e.document id).nextListener)) := by
  obtain ⟨events, hevents⟩ := h'.hears
  by_cases hid : id = document
  · subst hid
    rw [document_tracking h.stored] at hevents
    have hhears := hevents.without h.listed
    have hdocument : (e'.modifyDocument id (·.unsubscribe (e.document id).nextListener)).document
        id = (e'.document id).unsubscribe (e.document id).nextListener :=
      (document_setDocument _ _ _ _).trans (if_pos ⟨rfl, h'.hosts.stored⟩)
    rw [← hdocument] at hhears
    obtain ⟨held, hheld⟩ := Option.isSome_iff_exists.mp h.tracked
    refine ⟨⟨?_, hhears.listed h.listed, ?_, fun ctx hctx hon => ?_⟩, events, hhears⟩
    · rw [Editor.modifyDocument, Editor.setDocument, List.length_set]
      exact h'.hosts.stored
    · exact Option.isSome_of_eq_some (hhears.tracked h.listed hheld)
    · obtain ⟨hne, hissued, hrole⟩ := h'.hosts.clients ctx hctx hon
      rw [hdocument]
      exact ⟨hne, hissued, fun l hl => hrole l (List.mem_of_mem_filter hl)⟩
  · rw [document_tracking_of_ne (Ne.symm hid)] at hevents
    have hafter : e'.Informs document tracker
        (e'.modifyDocument id (·.unsubscribe (e.document id).nextListener)) :=
      h'.hosts.setDocument fun hsame => absurd hsame hid
    have hbefore : e.Informs document tracker e' := ⟨h'.hosts, events, hevents⟩
    exact hbefore.trans hafter

end Editor

/-! ## All moves -/

namespace Scene

variable {document tracker : Nat} {s t : Scene}

/-- **`s.Returns t`** — if other clients are visited from `s` to `t`, then the clients were in order
at first, and no context without a window renames a client that is checked out. So whoever is
visited finds the own slot again. -/
def Returns (s t : Scene) : Prop :=
  (∃ client, .visited client ∈ s.since t) → s.Orderly ∧ .renamed false true ∉ s.since t

/-- What happens inside tells of nothing that is not told in all. -/
theorem Returns.inside {s' t' : Scene} (h : s.Returns t) (hsub : s'.since t' ⊆ s.since t)
    (horderly : s.Orderly → s'.Orderly) : s'.Returns t' := by
  rintro ⟨client, hclient⟩
  obtain ⟨hs, hnote⟩ := h ⟨client, hsub hclient⟩
  exact ⟨horderly hs, fun hmem => hnote (hsub hmem)⟩

theorem Returns.before {u : Scene} (h : s.Returns u) (hst : Moves s t) (htu : Moves t u) :
    s.Returns t := by
  refine h.inside ?_ id
  rw [hst.since_trans htu]
  exact List.subset_append_left _ _

theorem Returns.after {u : Scene} (h : s.Returns u) (hst : Moves s t) (htu : Moves t u) :
    t.Returns u := by
  rintro ⟨client, hclient⟩
  have hsince := hst.since_trans htu
  obtain ⟨hs, hnote⟩ := h ⟨client, hsince ▸ List.mem_append_right _ hclient⟩
  rw [hsince, List.mem_append, not_or] at hnote
  obtain ⟨htidy, hcarried⟩ := hst.carried hs hnote.1
  exact ⟨hs.carried htidy hst.isSome_client? hcarried, hnote.2⟩

/-- The end of an edition changes the document by a commit at most. -/
theorem informs_ended (hs : s.editor.Hosts document tracker) :
    s.editor.Informs document tracker s.ended.editor := by
  unfold ended
  dsimp only
  split
  · exact hs.setSilent rfl rfl rfl rfl
  · exact hs.refl

/-- Undo and redo change the document, and the journal. -/
theorem informs_rewritten (hs : s.editor.Hosts document tracker) (happening : Happening)
    {d : Document}
    (hd : s.document.Listed → (s.document.tracked? tracker).isSome →
      ∃ events, s.document.Hears tracker events d) :
    s.editor.Informs document tracker (s.rewritten happening d).editor := by
  have hjot : s.editor.Informs document tracker (s.editor.jot happening) := hs.keep rfl hs.clients
  refine hjot.trans (hjot.hosts.setDocument ?_)
  rintro rfl
  exact hd hs.listed hs.tracked

/-- The context in which hooks run on a new document is on that document. -/
theorem informs_opening (hs : s.editor.Hosts document tracker) (documents : NameMap Nat)
    (name text : String) :
    s.editor.Informs document tracker (s.opening documents name text).editor ∧
      (s.opening documents name text).editor.IsGuest document tracker
        (s.opening documents name text).context := by
  have hcreated : s.editor.Informs document tracker (s.editor.creating documents name text) :=
    hs.creating documents name text
  have hnew : s.editor.store.length ≠ document := hs.stored.ne'
  refine ⟨hcreated.trans (hcreated.hosts.setDocument fun hid => absurd hid hnew), ?_⟩
  exact fun hon => absurd hon hnew

/-- **Drafts** — what happens in a draft the listeners hear of, and the draft is gone without a
trace. -/
theorem informs_draft (hs : s.editor.Hosts document tracker) (hmoves : Moves s.drafted t)
    (h : s.drafted.editor.Hosts document tracker →
      s.drafted.editor.IsGuest document tracker s.drafted.context →
      s.drafted.editor.Informs document tracker t.editor) (note : Happening) :
    s.editor.Informs document tracker ((t.editor.release t.context).jot note) := by
  have hinside := h (hs.tracking s.context.document s.selections)
    (hs.isGuest_tracking s.context.document s.selections rfl rfl)
  have hreleased := hs.without hinside
  have hrelease : t.editor.release t.context = t.editor.modifyDocument s.context.document
      (·.unsubscribe (s.editor.document s.context.document).nextListener) := by
    rw [Editor.release, hmoves.context_eq.1, hmoves.context_eq.2]
    rfl
  rw [← hrelease] at hreleased
  exact hreleased.trans (hreleased.hosts.keep rfl hreleased.hosts.clients)

/-- **New documents** — hooks run on a document that is created, which is another one. -/
theorem informs_created (hs : s.editor.Hosts document tracker) {documents : NameMap Nat}
    {name text : String} (hmoves : Moves (s.opening documents name text) t)
    (h : (s.opening documents name text).editor.Hosts document tracker →
      (s.opening documents name text).editor.IsGuest document tracker
        (s.opening documents name text).context →
      (s.opening documents name text).editor.Informs document tracker t.editor) :
    s.editor.Informs document tracker (t.editor.release t.context) := by
  obtain ⟨hfirst, hopen⟩ := informs_opening hs documents name text
  have hafter := hfirst.trans (h hfirst.hosts hopen)
  refine hafter.trans (hafter.hosts.setDocument fun hid => ?_)
  rw [hmoves.context_eq.1] at hid
  exact absurd hid hs.stored.ne'

/-- **Other clients** — if their slots wait for them, their contexts are put back, and none is
dropped. -/
theorem informs_client (hs : s.editor.Hosts document tracker) (horder : s.Orderly) {name : String}
    {other : Context} {clients : Clients}
    (hcheckout : s.editor.clients.checkout name = .ok (other, clients))
    (hmoves : Moves ⟨{ s.editor with clients }, other⟩ t)
    (hnote : .renamed false true ∉ since ⟨{ s.editor with clients }, other⟩ t)
    (h : ({ s.editor with clients } : Editor).Hosts document tracker →
      ({ s.editor with clients } : Editor).IsGuest document tracker other →
      ({ s.editor with clients } : Editor).Informs document tracker t.editor) :
    s.editor.Informs document tracker
      ((t.editor.checkin name t.context.forgetDrawing).jot (.visited name)) := by
  obtain ⟨hother, hheld⟩ := Clients.holds_of_checkout hcheckout
  have hfirst : s.editor.Informs document tracker { s.editor with clients } :=
    hs.keep rfl fun ctx hctx => hs.clients ctx (hheld ctx hctx)
  have hguest := hs.clients other hother
  have hafter := hfirst.trans (h hfirst.hosts hguest)
  obtain ⟨htidy, hwaits⟩ := waits_of_checkout horder.tidy hcheckout hmoves hnote
  have hwaits : (t.context.forgetDrawing.name, none) ∈ t.slots := hwaits
  have hback : (t.editor.clients.checkin name t.context.forgetDrawing).1 = none :=
    Clients.checkin_fst htidy hwaits name
  refine hafter.trans (hafter.hosts.keep ?_ fun ctx hctx => ?_)
  · unfold Editor.jot Editor.checkin
    dsimp only
    rw [hback]
  · rw [Editor.jot, Editor.clients_checkin] at hctx
    rcases (t.editor.clients.holds_of_checkin name _).2 ctx hctx with rfl | hold
    · have hreturned := hafter.isGuest hguest
      unfold Editor.IsGuest at hreturned ⊢
      rw [← hmoves.context_eq.1, ← hmoves.context_eq.2] at hreturned
      exact hreturned
    · exact hafter.hosts.clients ctx hold

/-- **What listeners hear of** — by induction on the moves of a context that is a guest of the
document: its listeners hear of every change, and nothing else becomes of them. -/
theorem Moves.informs (h : Moves s t) (hs : s.editor.Hosts document tracker)
    (hguest : s.editor.IsGuest document tracker s.context) (hreturns : s.Returns t) :
    s.editor.Informs document tracker t.editor := by
  induction h with
  | refl => exact hs.refl
  | trans hst htu ih ih' =>
    have hfirst := ih hs hguest (hreturns.before hst htu)
    refine hfirst.trans (ih' hfirst.hosts ?_ (hreturns.after hst htu))
    have hstill := hfirst.isGuest hguest
    unfold Editor.IsGuest at hstill ⊢
    rwa [hst.context_eq.1, hst.context_eq.2]
  | note | stray | tell => exact hs.keep rfl hs.clients
  | tables place tables =>
    cases place with
    | editor => exact hs.keep rfl hs.clients
    | document id => exact hs.setSilent rfl rfl rfl rfl
    | window => exact hs.refl
  | begin | turn => exact hs.refl
  | finish => exact informs_ended hs
  | type id htyped =>
    refine hs.setDocument ?_
    rintro rfl
    exact htyped.hears hs.listed hs.tracked
  | undo => exact informs_rewritten hs _ Document.hears_undo
  | redo => exact informs_rewritten hs _ Document.hears_redo
  | @select s x =>
    refine hs.setDocument fun hon => ?_
    obtain ⟨hne, hlends⟩ := hguest hon
    subst hon
    exact ⟨[], Document.hears_giving hlends hne _⟩
  | @retitle s _ _ _ hrename =>
    obtain ⟨documents, id, -, rfl⟩ := Editor.renameDocument_eq hrename
    have hnames : s.editor.Informs document tracker { s.editor with documents } :=
      hs.keep rfl hs.clients
    exact hnames.trans (hnames.hosts.setSilent rfl rfl rfl rfl)
  | rename hrename =>
    refine hs.keep rfl ?_
    intro ctx hctx
    obtain ⟨held, given, hheld, rfl⟩ := Clients.holds_of_rename hrename hctx
    exact hs.clients held hheld
  | @create s t name documents text _ hinner ih =>
    have hinside : (s.opening documents name text).Returns t :=
      hreturns.inside (Editor.since_subset rfl [] (List.append_nil _).symm)
        fun ho => ho.windowless rfl rfl
    exact informs_created hs hinner fun hhosts hopen => ih hhosts hopen hinside
  | @mute s t name documents text failed _ hinner ih =>
    have hinside : (s.opening documents name text).Returns t :=
      hreturns.inside (Editor.since_subset rfl _ rfl) fun ho => ho.windowless rfl rfl
    have hcreated := informs_created hs hinner fun hhosts hopen => ih hhosts hopen hinside
    have hmuted : s.editor.Informs document tracker
        ((t.editor.release t.context).muted s.editor.store.length failed) :=
      hcreated.trans (hcreated.hosts.setSilent rfl rfl rfl rfl)
    exact hmuted.trans (hmuted.hosts.keep rfl hmuted.hosts.clients)
  | @draft s t hinner ih =>
    have hinside : s.drafted.Returns t :=
      hreturns.inside (Editor.since_subset rfl _ rfl) fun ho => ho.windowless rfl rfl
    exact informs_draft hs hinner (fun hhosts hdraft => ih hhosts hdraft hinside) _
  | @tracking s t id l hinner ih =>
    have hinside : (s.tracking id l).Returns t :=
      hreturns.inside (Editor.since_subset rfl [] (List.append_nil _).symm)
        fun ho => ⟨ho.tidy, ho.own⟩
    exact hs.without (ih (hs.tracking id l) (hguest.tracking hs id l) hinside)
  | @client s t name other clients hcheckout hinner ih =>
    have hjournal := t.editor.journal_visited name t.context.forgetDrawing
    obtain ⟨horder, hnote⟩ := hreturns ⟨name, hinner.mem_since rfl hjournal⟩
    have hnote' : .renamed false true ∉ since ⟨{ s.editor with clients }, other⟩ t :=
      fun hmem => hnote (Editor.since_subset rfl [.visited name] hjournal hmem)
    refine informs_client hs horder hcheckout hinner hnote' fun hhosts hguest => ?_
    exact ih hhosts hguest fun _ => ⟨(orderly_of_checkout horder.tidy hcheckout).1, hnote'⟩

/-! ## What is left of a draft -/

/-- **A draft leaves no trace of its own** — for every scene, every command line, keys or further
drafts that are done in a draft of its context, once or once per selection, failing or not: the
context is what it was, and the document has the listeners that it had, except for observers that
were asked to go when they heard of a change; what waits is what these have asked for in turn. The
selections are the old ones moved through the changes that were announced, which are all that were
made, so without a change they are what they were. This needs that other clients that are visited
find their slots again. -/
theorem draft_leaves_no_trace {flags : ContextFlags} (body : Script)
    (hs : s.editor.Hosts s.context.document s.context.tracker) (hdraft : flags.draft = true)
    (hborrow : (borrowClient flags).perform s = (.ok none, s))
    (hreturns : s.Returns ((route flags body.act).perform s).2) :
    let t := ((route flags body.act).perform s).2
    t.context = s.context ∧
      (∃ events,
        t.document.toldTo s.context.tracker = s.document.toldTo s.context.tracker ++ events ∧
        t.document.timestamp = s.document.timestamp + events.length ∧
        Audience.Alike s.context.tracker (hearing events s.document.audience)
          t.document.audience ∧
        t.selections = s.selections.follow events) ∧
      (t.document.timestamp = s.document.timestamp →
        t.selections = s.selections ∧
        Audience.Alike s.context.tracker s.document.audience t.document.audience) := by
  obtain ⟨act, hact, hroute⟩ := perform_route_draft hdraft hborrow body.moving_act
  rw [hroute, perform_inDraft] at hreturns
  intro t
  have ht : t = { s with
      editor := ((act.perform s.drafted).2.editor.release (act.perform s.drafted).2.context).jot
        (.drafted s.context.document s.context.isEditing) } :=
    congrArg Prod.snd (hroute.trans (perform_inDraft act s))
  have hinside : s.drafted.Returns (act.perform s.drafted).2 :=
    hreturns.inside (Editor.since_subset rfl _ rfl) fun ho => ho.windowless rfl rfl
  have hinforms := informs_draft hs (hact s.drafted)
    (fun hhosts hguest => (hact s.drafted).informs hhosts hguest hinside)
    (.drafted s.context.document s.context.isEditing)
  obtain ⟨events, hevents⟩ := hinforms.hears
  obtain ⟨l, hl⟩ := Option.isSome_iff_exists.mp hs.tracked
  have hselections : t.selections = s.selections.follow events := by
    have hafter := hevents.tracked hs.listed hl
    rw [ht]
    simp only [selections, Editor.selections, Document.selections, hl, hafter, Option.getD_some]
  have hdocument : t.document = t.editor.document s.context.document := by rw [ht]; rfl
  have hevents : s.document.Hears s.context.tracker events t.document := by
    rw [hdocument, ht]
    exact hevents
  refine ⟨by rw [ht], ⟨events, hevents.told, hevents.timestamp, hevents.audience, hselections⟩, ?_⟩
  intro htimestamp
  -- every event is that of a change
  obtain rfl : events = [] := by
    have hcount := hevents.timestamp
    exact List.length_eq_zero_iff.mp (by omega)
  exact ⟨hselections, hevents.audience⟩

set_option maxRecDepth 100000 in
/-- The second of two passes fails, since in the first one the other client was renamed. -/
theorem draft_leaves_no_trace_failing :
    let other : Context := { name := "one", document := 0, tracker := 1, window := some {} }
    let d : Document :=
      { name := "notes", text := ['a', 'b'], nextListener := 2
        listeners := [⟨0, .tracker ⟨[⟨⟨0, 0⟩, ⟨0, 0⟩, []⟩, ⟨⟨0, 1⟩, ⟨0, 1⟩, []⟩], 0⟩⟩,
          ⟨1, .tracker default⟩] }
    let s : Scene :=
      ⟨{ store := [d], commands := Command.coreTable
         clients := ⟨⟨"client", [("one", some other)]⟩, 0⟩ },
        { name := "main", document := 0, tracker := 0 }⟩
    let flags : ContextFlags := { draft := true, itersel := true }
    let body : Script := .line {} "exec ix<esc>; eval -client one 'nameclient two'"
    let t := ((route flags body.act).perform s).2
    s.editor.Hosts 0 0 ∧ s.Returns t ∧ .visited "one" ∈ s.since t ∧
      ((route flags body.act).perform s).1.isOk = false ∧
      t.document.text = ['x', 'a', 'x', 'b'] ∧ t.document.listeners.map (·.id) = [0, 1] ∧
      t.context = s.context ∧
      t.selections = ⟨[⟨⟨0, 1⟩, ⟨0, 1⟩, []⟩, ⟨⟨0, 3⟩, ⟨0, 3⟩, []⟩], 0⟩ := by
  intro other d s flags body
  have hhosts : s.editor.Hosts 0 0 := by
    refine ⟨Nat.zero_lt_one, ⟨by decide, by decide⟩, rfl, ?_⟩
    rintro ctx ⟨name, hmem⟩ -
    obtain ⟨-, rfl⟩ : name = "one" ∧ ctx = other := by simpa [s] using hmem
    exact ⟨Nat.one_ne_zero, Nat.one_lt_two, by decide⟩
  have horderly : s.Orderly := by
    refine ⟨⟨List.nodup_singleton _, fun name ctx hmem => ?_⟩, fun name hname => by cases hname⟩
    obtain ⟨rfl, rfl⟩ : name = "one" ∧ ctx = other := by simpa [s, Clients.entries] using hmem
    exact ⟨rfl, rfl⟩
  have hrun : (fun done : Except CommandError Unit × Scene =>
      (done.1.isOk, s.since done.2, done.2.document.text, done.2.document.toldTo 0,
        done.2.document.listeners.map (·.id))) ((route flags body.act).perform s) =
      (false, [.renamed true true, .visited "one", .drafted 0 false], ['x', 'a', 'x', 'b'],
        [.inserted ⟨0, 0⟩ ⟨0, 1⟩, .inserted ⟨0, 2⟩ ⟨0, 3⟩], [0, 1]) := by
    cbv
  simp only [Prod.mk.injEq] at hrun
  obtain ⟨hfails, hjournal, htext, htold, hids⟩ := hrun
  have hreturns : s.Returns ((route flags body.act).perform s).2 := by
    refine fun _ => ⟨horderly, ?_⟩
    rw [hjournal]
    decide
  have hvisited : .visited "one" ∈ s.since ((route flags body.act).perform s).2 := by
    rw [hjournal]
    decide
  obtain ⟨hcontext, ⟨events, hevents, -, -, hselections⟩, -⟩ :=
    draft_leaves_no_trace body hhosts rfl rfl hreturns
  obtain rfl : [.inserted ⟨0, 0⟩ ⟨0, 1⟩, .inserted ⟨0, 2⟩ ⟨0, 3⟩] = events :=
    htold.symm.trans hevents
  exact ⟨hhosts, hreturns, hvisited, hfails, htext, hids, hcontext, hselections.trans (by cbv)⟩

set_option maxRecDepth 100000 in
/-- A draft in the context of another client renames that client, whose context is checked out: it
is dropped, and with it a listener that the document had before. -/
theorem draft_drops_listener_of_client :
    let other : Context := { name := "one", document := 0, tracker := 1, window := some {} }
    let d : Document :=
      { name := "notes", text := ['a'], nextListener := 2
        listeners := [⟨0, .tracker default⟩, ⟨1, .tracker default⟩] }
    let s : Scene :=
      ⟨{ store := [d], commands := Command.coreTable
         clients := ⟨⟨"client", [("one", some other)]⟩, 0⟩ },
        { name := "main", document := 0, tracker := 0 }⟩
    let body : Script := .line {} "eval -client one 'eval -draft nameclient two'"
    let t := ((route { draft := true } body.act).perform s).2
    ((route { draft := true } body.act).perform s).1.isOk = true ∧
      t.document.timestamp = s.document.timestamp ∧
      s.document.listeners.map (·.id) = [0, 1] ∧ t.document.listeners.map (·.id) = [0] := by
  intro other d s body t
  have hrun : (fun done : Except CommandError Unit × Scene =>
      (done.1.isOk, done.2.document.timestamp, done.2.document.listeners.map (·.id)))
        ((route { draft := true } body.act).perform s) = (true, 0, [0]) := by
    cbv
  simp only [Prod.mk.injEq] at hrun
  exact ⟨hrun.1, hrun.2.1, rfl, hrun.2.2⟩

end Scene

end ModalEdit
