import ModalEdit.Proofs.CarriedSlots
import ModalEdit.Proofs.CommandMoves

/-!
# Which documents are open

Commands open documents and rename them, and close none. So the entries of the table of documents
keep their documents, in their places, and new ones come behind them (`Moves.grows`).

With that goes that documents never take back the number of a listener, and that no context gets
into a slot that was in none. So what tells a new context from all others goes on doing so.
-/

namespace ModalEdit

/-! ## Growth -/

namespace Document

variable {d e : Document}

theorem Typed.nextListener_eq (h : d.Typed e) : e.nextListener = d.nextListener := by
  induction h with
  | refl => rfl
  | step _ _ ih => rw [nextListener_edit, ih]

end Document

namespace Editor

/-- The numbers of the open documents, in the order in which they were opened. -/
def opened (e : Editor) : List Nat := e.documents.entries.values

/-- **`e.HasClient identity`** — the context with that document and that tracker is in a slot. -/
def HasClient (e : Editor) (identity : Nat × Nat) : Prop :=
  ∃ ctx, e.clients.Holds ctx ∧ ctx.identity = identity

/-- **`e.Grows e'`** — from `e` to `e'`, documents are opened and none is closed, listeners are
numbered on, and no context has got into a slot of a client. -/
structure Grows (e e' : Editor) : Prop where
  distinct : e.documents.entries.names.Nodup → e'.documents.entries.names.Nodup
  opened : ∃ new : List Nat, e'.opened = e.opened ++ new ∧ new.Nodup ∧
    ∀ id ∈ new, e.store.length ≤ id ∧ id < e'.store.length
  stored : e.store.length ≤ e'.store.length
  numbered : ∀ id, (e.document id).nextListener ≤ (e'.document id).nextListener
  held : ∀ identity, e'.HasClient identity → e.HasClient identity

variable {e e' e'' : Editor}

theorem Grows.trans (h : e.Grows e') (h' : e'.Grows e'') : e.Grows e'' where
  distinct hdistinct := h'.distinct (h.distinct hdistinct)
  opened := by
    obtain ⟨new, hopened, hnew, hrange⟩ := h.opened
    obtain ⟨later, hopened', hlater, hrange'⟩ := h'.opened
    refine ⟨new ++ later, by rw [hopened', hopened, List.append_assoc], ?_, ?_⟩
    · refine List.nodup_append.mpr ⟨hnew, hlater, ?_⟩
      rintro id hid _ hid' rfl
      exact absurd (hrange id hid).2 (Nat.not_lt.mpr (hrange' id hid').1)
    · intro id hid
      rcases List.mem_append.mp hid with hid | hid
      · exact ⟨(hrange id hid).1, lt_of_lt_of_le (hrange id hid).2 h'.stored⟩
      · exact ⟨le_trans h.stored (hrange' id hid).1, (hrange' id hid).2⟩
  stored := le_trans h.stored h'.stored
  numbered id := le_trans (h.numbered id) (h'.numbered id)
  held identity hheld := h.held identity (h'.held identity hheld)

/-- Neither documents are opened nor listeners numbered. -/
theorem grows_of_eq (hdocuments : e'.documents = e.documents) (hstore : e'.store = e.store)
    (hheld : ∀ ctx, e'.clients.Holds ctx → e.HasClient ctx.identity) : e.Grows e' where
  distinct h := hdocuments ▸ h
  opened := ⟨[], by rw [opened, opened, hdocuments, List.append_nil], List.nodup_nil, by simp⟩
  stored := hstore.symm ▸ le_rfl
  numbered id := (document_congr hstore id).symm ▸ le_rfl
  held := fun _ ⟨ctx, hctx, hidentity⟩ => hidentity ▸ hheld ctx hctx

theorem Grows.refl (e : Editor) : e.Grows e := grows_of_eq rfl rfl fun ctx hctx => ⟨ctx, hctx, rfl⟩

/-- What is beside documents and clients changes. -/
theorem grows_aside (hdocuments : e'.documents = e.documents) (hstore : e'.store = e.store)
    (hclients : e'.clients = e.clients) : e.Grows e' :=
  grows_of_eq hdocuments hstore fun ctx hctx => ⟨ctx, hclients ▸ hctx, rfl⟩

theorem grows_setDocument (e : Editor) {id : Nat} {d : Document}
    (h : (e.document id).nextListener ≤ d.nextListener) : e.Grows (e.setDocument id d) where
  distinct hdistinct := hdistinct
  opened := ⟨[], (List.append_nil _).symm, List.nodup_nil, by simp⟩
  stored := (List.length_set ..).ge
  numbered other := by
    rw [document_setDocument]
    split
    next hsame => exact hsame.1 ▸ h
    next => exact le_rfl
  held _ hheld := hheld

theorem grows_track (e : Editor) (id : Nat) (l : SelectionList) :
    e.Grows (e.setDocument id ((e.document id).track l).2) :=
  e.grows_setDocument (Nat.le_succ _)

theorem grows_release (e : Editor) (c : Context) : e.Grows (e.release c) :=
  e.grows_setDocument le_rfl

/-- A document is opened behind the others. -/
theorem grows_creating {documents : NameMap Nat} {name : String}
    (hinsert : e.documents.insert name e.store.length = .ok documents) (text : String) :
    e.Grows (e.creating documents name text) where
  distinct hdistinct := by
    obtain ⟨hfree, rfl⟩ := NameMap.insert_eq_ok hinsert
    exact Entries.nodup_names_append hdistinct hfree
  opened := by
    obtain ⟨-, rfl⟩ := NameMap.insert_eq_ok hinsert
    refine ⟨[e.store.length], ?_, List.nodup_singleton _, ?_⟩
    · rw [opened, creating, Entries.values_append, ← opened]
    · intro id hid
      rw [List.mem_singleton.mp hid, creating, List.length_append]
      exact ⟨le_rfl, Nat.lt_succ_self _⟩
  stored := by
    rw [creating, List.length_append]
    exact Nat.le_add_right _ _
  numbered id := by
    rcases Nat.lt_or_ge id e.store.length with hid | hid
    · exact (document_creating hid documents name text).symm ▸ le_rfl
    · rw [document_of_le hid]
      exact Nat.zero_le _
  held _ hheld := hheld

theorem grows_renameDocument {source target : String}
    (h : e.renameDocument source target = .ok e') : e.Grows e' := by
  obtain ⟨documents, id, hrename, rfl⟩ := renameDocument_eq h
  have hnames : e.Grows { e with documents } := by
    obtain ⟨-, ⟨-, rfl⟩ | ⟨hfree, rfl⟩⟩ := NameMap.rename_eq_ok hrename
    · exact .refl e
    · refine ⟨fun hdistinct => Entries.nodup_names_rename hdistinct hfree,
        ⟨[], ?_, List.nodup_nil, by simp⟩, le_rfl, fun _ => le_rfl, fun _ hheld => hheld⟩
      rw [opened, Entries.values_rename, ← opened, List.append_nil]
  exact hnames.trans (grows_setDocument _ le_rfl)

/-- A context is put back that was in a slot. -/
theorem Grows.checkin {c : Context} (h : e.Grows e') (hc : e.HasClient c.identity)
    (name : String) : e.Grows (e'.checkin name c) := by
  have hkept : e.Grows { e' with clients := (e'.clients.checkin name c).2 } := by
    refine { h with held := ?_ }
    rintro _ ⟨ctx, hctx, rfl⟩
    rcases (e'.clients.holds_of_checkin name c).2 ctx hctx with rfl | hheld
    · exact hc
    · exact h.held _ ⟨ctx, hheld, rfl⟩
  unfold Editor.checkin
  dsimp only
  split
  · exact hkept.trans (grows_release _ _)
  · exact hkept

end Editor

namespace Scene

variable {s t : Scene}

theorem grows_ended (s : Scene) : s.editor.Grows s.ended.editor := by
  unfold ended
  dsimp only
  split
  · exact s.editor.grows_setDocument le_rfl
  · exact .refl _

theorem grows_rewritten (s : Scene) (note : Happening) (op : Document.Operation) (hop : op.IsEdit) :
    s.editor.Grows (s.rewritten note (s.document.perform op).2).editor := by
  have hjot : s.editor.Grows (s.editor.jot note) := Editor.grows_aside rfl rfl rfl
  exact hjot.trans (Editor.grows_setDocument _ (s.document.editStep_perform hop).nextListener_eq.ge)

/-- Hooks have run on a document that is opened. -/
theorem grows_opening {documents : NameMap Nat} {name text : String}
    (h : (s.opening documents name text).editor.Grows t.editor) :
    (s.editor.creating documents name text).Grows (t.editor.release t.context) :=
  ((Editor.grows_track _ _ _).trans h).trans (Editor.grows_release _ _)

/-- **No move closes a document** — and none takes back the number of a listener, or gets a context
into a slot that was in none. -/
theorem Moves.grows (h : Moves s t) : s.editor.Grows t.editor := by
  induction h with
  | refl s => exact .refl _
  | trans _ _ ih ih' => exact ih.trans ih'
  | note => exact Editor.grows_aside rfl rfl rfl
  | tables place tables =>
    cases place with
    | editor => exact Editor.grows_aside rfl rfl rfl
    | document id => exact Editor.grows_setDocument _ le_rfl
    | window => exact .refl _
  | begin | turn => exact .refl _
  | finish s => exact s.grows_ended
  | stray | tell => exact Editor.grows_aside rfl rfl rfl
  | type id htyped => exact Editor.grows_setDocument _ htyped.nextListener_eq.ge
  | undo s => exact s.grows_rewritten _ .undo trivial
  | redo s => exact s.grows_rewritten _ .redo trivial
  | select x => exact Editor.grows_setDocument _ le_rfl
  | retitle hrename => exact Editor.grows_renameDocument hrename
  | rename hrename =>
    refine Editor.grows_of_eq rfl rfl ?_
    intro ctx hctx
    obtain ⟨held, given, hheld, rfl⟩ := Clients.holds_of_rename hrename hctx
    exact ⟨held, hheld, rfl⟩
  | create text hinsert _ ih => exact (Editor.grows_creating hinsert text).trans (grows_opening ih)
  | @mute s t name documents text failed hinsert _ ih =>
    have hopened := (Editor.grows_creating hinsert text).trans (grows_opening ih)
    have hmuted : s.editor.Grows
        ((t.editor.release t.context).muted s.editor.store.length failed) :=
      hopened.trans (Editor.grows_setDocument _ le_rfl)
    exact hmuted.trans (Editor.grows_aside rfl rfl rfl)
  | draft _ ih =>
    have hinside := (Editor.grows_track _ _ _).trans ih
    exact (hinside.trans (Editor.grows_release _ _)).trans (Editor.grows_aside rfl rfl rfl)
  | tracking id l _ ih =>
    have hinside := (Editor.grows_track _ id l).trans ih
    exact hinside.trans (Editor.grows_setDocument _ le_rfl)
  | @client s t name other clients hcheckout hinner ih =>
    obtain ⟨hother, hheld⟩ := Clients.holds_of_checkout hcheckout
    have hout : s.editor.Grows { s.editor with clients } :=
      Editor.grows_of_eq rfl rfl fun ctx hctx => ⟨ctx, hheld ctx hctx, rfl⟩
    -- what comes back is the context that was in the slot
    have hreturned : s.editor.HasClient t.context.forgetDrawing.identity :=
      ⟨other, hother, (congrArg₂ Prod.mk hinner.context_eq.1 hinner.context_eq.2).symm⟩
    have hback := (hout.trans ih).checkin hreturned name
    exact hback.trans (Editor.grows_aside rfl rfl rfl)

end Scene

/-! ## Editors in order -/

namespace Editor

/-- **`e.Lists id`** — the document is open, under some name. -/
def Lists (e : Editor) (id : Nat) : Prop := ∃ name, e.documents.get? name = some id

/-- **`e.Sound`** — the open documents have names of their own, none is open twice, and each is in
the store; the trackers of clients are those of listeners that their documents have numbered. -/
structure Sound (e : Editor) : Prop where
  distinct : e.documents.entries.names.Nodup
  once : e.opened.Nodup
  stored : ∀ id ∈ e.opened, id < e.store.length
  numbered : ∀ id tracker, e.HasClient (id, tracker) → tracker < (e.document id).nextListener

variable {e e' : Editor} {id : Nat} {name : String}

theorem sound_new (host : Host) : (Editor.new host).Sound where
  distinct := List.nodup_nil
  once := List.nodup_nil
  stored _ hid := nomatch hid
  numbered := by
    rintro _ _ ⟨_, ⟨_, hmem⟩, -⟩
    cases hmem

theorem Sound.lists_iff (h : e.Sound) : e.Lists id ↔ id ∈ e.opened := by
  constructor
  · rintro ⟨name, hname⟩
    exact List.mem_map.mpr ⟨(name, id), Entries.mem_of_get? hname, rfl⟩
  · intro hid
    obtain ⟨⟨name, _⟩, hmem, rfl⟩ := List.mem_map.mp hid
    exact ⟨name, Entries.get?_of_mem h.distinct hmem⟩

theorem mem_opened (h : e.documentNamed name = .ok id) : id ∈ e.opened := by
  unfold documentNamed NameMap.find at h
  cases hname : e.documents.get? name with
  | none =>
    rw [hname] at h
    cases h
  | some found =>
    rw [hname] at h
    obtain rfl := Except.ok.inj h
    exact List.mem_map.mpr ⟨(name, _), Entries.mem_of_get? hname, rfl⟩

/-- A document is open under one name. -/
theorem Sound.name_eq (h : e.Sound) {other : String} (hname : e.documents.get? name = some id)
    (hother : e.documents.get? other = some id) : name = other := by
  have hmem := Entries.mem_of_get? hname
  have hmem' := Entries.mem_of_get? hother
  exact congrArg Prod.fst (List.inj_on_of_nodup_map h.once hmem hmem' rfl)

/-- Growth keeps editors in order. -/
theorem Grows.sound (h : e.Grows e') (he : e.Sound) : e'.Sound where
  distinct := h.distinct he.distinct
  once := by
    obtain ⟨new, hopened, hnew, hrange⟩ := h.opened
    rw [hopened]
    refine List.nodup_append.mpr ⟨he.once, hnew, ?_⟩
    rintro id hid _ hid' rfl
    exact absurd (he.stored id hid) (Nat.not_lt.mpr (hrange id hid').1)
  stored id hid := by
    obtain ⟨new, hopened, -, hrange⟩ := h.opened
    rw [hopened] at hid
    rcases List.mem_append.mp hid with hid | hid
    · exact lt_of_lt_of_le (he.stored id hid) h.stored
    · exact (hrange id hid).2
  numbered id tracker hheld :=
    lt_of_lt_of_le (he.numbered id tracker (h.held _ hheld)) (h.numbered id)

/-- What is open stays open. -/
theorem Grows.lists (h : e.Grows e') (he : e.Sound) (hid : e.Lists id) : e'.Lists id := by
  obtain ⟨new, hopened, -⟩ := h.opened
  rw [(h.sound he).lists_iff, hopened]
  exact List.mem_append_left _ (he.lists_iff.mp hid)

end Editor

end ModalEdit
