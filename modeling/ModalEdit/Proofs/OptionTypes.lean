import ModalEdit.Proofs.ClientSlots
import ModalEdit.Proofs.CommandMoves
import ModalEdit.Proofs.OptionScopes

/-!
# Option types agree

Options are declared for the whole editor, and what documents and windows hold hides an option of
the editor and has its type. An assignment in a document or a window takes the type of what is in
effect there, which is a value of one of the places on the way outward, so it has the type of the
option of the editor (`Revises.fits`); that is never removed, and never replaced by a value of
another type. Both are kept by all moves (`Moves.extends`).
-/

namespace ModalEdit

/-! ## Stores that fit -/

/-- **`inner.Fits outer`** — every option of `inner` is one of `outer`, and of the same type. -/
def OptionStore.Fits (inner outer : OptionStore) : Prop :=
  ∀ name value, inner.get? name = some value →
    ∃ found, outer.get? name = some found ∧ found.type = value.type

namespace OptionStore

variable {inner store outer : OptionStore} {name : String} {base value : OptionValue}

theorem Fits.refl (store : OptionStore) : store.Fits store := fun _ value h => ⟨value, h, rfl⟩

theorem Fits.trans (h : inner.Fits store) (h' : store.Fits outer) : inner.Fits outer := by
  intro name value hvalue
  obtain ⟨between, hbetween, htype⟩ := h name value hvalue
  obtain ⟨found, hfound, htype'⟩ := h' name between hbetween
  exact ⟨found, hfound, htype'.trans htype⟩

theorem Fits.empty (outer : OptionStore) : ({} : OptionStore).Fits outer :=
  fun _ _ h => by cases h

/-- An option is set to a value of the type that it has outside. -/
theorem Fits.set (h : inner.Fits outer) (hbase : outer.get? name = some base)
    (htype : base.type = value.type) : (inner.set name value).Fits outer := by
  intro other found hfound
  rw [get?_set] at hfound
  split at hfound
  next heq =>
    obtain rfl := Option.some.inj hfound
    exact ⟨base, heq ▸ hbase, htype⟩
  next => exact h other found hfound

/-- A value is replaced by one of its type. -/
theorem fits_set (hbase : store.get? name = some base) (htype : base.type = value.type) :
    store.Fits (store.set name value) := by
  intro other found hfound
  rw [get?_set]
  split
  next heq =>
    rw [heq, hbase] at hfound
    obtain rfl := Option.some.inj hfound
    exact ⟨value, rfl, htype.symm⟩
  next => exact ⟨found, hfound, rfl⟩

theorem fits_declare {hidden : Bool} (h : store.declare name value hidden = .ok outer) :
    store.Fits outer := by
  obtain ⟨hfree, hget⟩ := get?_of_declare h
  intro other found hfound
  rw [hget, if_neg fun heq => ?_]
  · exact ⟨found, hfound, rfl⟩
  · rw [heq, hfree] at hfound
    cases hfound

end OptionStore

/-! ## Editors that agree -/

/-- The options of the whole editor. -/
def Editor.globals (e : Editor) : OptionStore := e.scopes.options

/-- **`c.Fits outer`** — the options of the window of the context, if it has one, fit. -/
def Context.Fits (c : Context) (outer : OptionStore) : Prop :=
  ∀ w, c.window = some w → w.scopes.options.Fits outer

/-- **`e.Agrees`** — the options of all documents, and of the windows of all clients, are options
of the editor, of the same types. -/
structure Editor.Agrees (e : Editor) : Prop where
  documents : ∀ id, (e.document id).scopes.options.Fits e.globals
  clients : ∀ ctx, e.clients.Holds ctx → ctx.Fits e.globals

/-- **`e.Extends e'`** — the options of `e` are options of `e'`, of the same types, and `e'`
agrees. -/
structure Editor.Extends (e e' : Editor) : Prop where
  agrees : e'.Agrees
  types : e.globals.Fits e'.globals

namespace Context.Fits

variable {c : Context} {store outer : OptionStore}

theorem trans (h : c.Fits store) (h' : store.Fits outer) : c.Fits outer :=
  fun w hw => (h w hw).trans h'

theorem of_none (h : c.window = none) : c.Fits outer := by
  intro w hw
  rw [h] at hw
  cases hw

theorem forgetDrawing (h : c.Fits outer) : c.forgetDrawing.Fits outer := by
  intro w hw
  obtain ⟨drawn, hdrawn, rfl⟩ := Option.map_eq_some_iff.mp hw
  exact h drawn hdrawn

end Context.Fits

namespace Editor

variable {e e' e'' : Editor}

theorem Extends.trans (h : e.Extends e') (h' : e'.Extends e'') : e.Extends e'' :=
  ⟨h'.agrees, h.types.trans h'.types⟩

/-- The tables of the editor and of its documents stay, and its clients hold no other options. -/
theorem Agrees.same (h : e.Agrees) (hscopes : e'.scopes = e.scopes)
    (hdocuments : ∀ id, (e'.document id).scopes.options = (e.document id).scopes.options)
    (hclients : ∀ ctx, e'.clients.Holds ctx → ctx.Fits e.globals) : e.Extends e' := by
  have hglobals : e'.globals = e.globals := congrArg ScopeTables.options hscopes
  refine ⟨⟨fun id => ?_, fun ctx hctx => ?_⟩, ?_⟩
  · rw [hglobals, hdocuments]
    exact h.documents id
  · rw [hglobals]
    exact hclients ctx hctx
  · rw [hglobals]
    exact .refl _

theorem Agrees.keep (h : e.Agrees) (hscopes : e'.scopes = e.scopes) (hstore : e'.store = e.store)
    (hclients : ∀ ctx, e'.clients.Holds ctx → ctx.Fits e.globals) : e.Extends e' :=
  h.same hscopes (fun id => by rw [document_congr hstore]) hclients

theorem Agrees.refl (h : e.Agrees) : e.Extends e := h.keep rfl rfl h.clients

/-- One document is replaced by one with the same options. -/
theorem Agrees.setDocument (h : e.Agrees) {id : Nat} {d : Document}
    (hd : d.scopes = (e.document id).scopes) : e.Extends (e.setDocument id d) := by
  refine h.same rfl (fun other => ?_) h.clients
  rw [document_setDocument]
  split
  next hsame => rw [hsame.1, hd]
  next => rfl

theorem Agrees.release (h : e.Agrees) (c : Context) : e.Extends (e.release c) :=
  h.setDocument rfl

/-- A new document holds no options. -/
theorem Agrees.creating (h : e.Agrees) (documents : NameMap Nat) (name text : String) :
    e.Extends (e.creating documents name text) := by
  refine h.same rfl (fun id => ?_) h.clients
  by_cases hid : id < e.store.length
  · rw [document_creating hid]
  · have hle := Nat.le_of_not_lt hid
    rw [document_of_le hle, document, Editor.creating, List.getD_eq_getElem?_getD,
      List.getElem?_append_right hle]
    cases id - e.store.length <;> rfl

theorem Agrees.renameDocument (h : e.Agrees) {source target : String}
    (hrename : e.renameDocument source target = .ok e') : e.Extends e' := by
  obtain ⟨documents, id, -, rfl⟩ := renameDocument_eq hrename
  have hnames : e.Extends { e with documents } := h.keep rfl rfl h.clients
  exact hnames.trans (hnames.agrees.setDocument rfl)

theorem Agrees.checkin (h : e.Agrees) (name : String) {c : Context} (hc : c.Fits e.globals) :
    e.Extends (e.checkin name c) := by
  obtain ⟨-, hheld⟩ := e.clients.holds_of_checkin name c
  have hkept : e.Extends { e with clients := (e.clients.checkin name c).2 } := by
    refine h.keep rfl rfl ?_
    intro held hmem
    rcases hheld held hmem with rfl | hold
    · exact hc
    · exact h.clients held hold
  unfold Editor.checkin
  dsimp only
  split
  next old _ => exact hkept.trans (hkept.agrees.release old)
  next => exact hkept

end Editor

/-! ## All moves -/

namespace Scene

variable {s t : Scene} {place : Site} {tables : ScopeTables}

/-- **`s.Agrees`** — the editor agrees, and the window of the context fits. -/
structure Agrees (s : Scene) : Prop where
  editor : s.editor.Agrees
  window : s.context.Fits s.editor.globals

/-- **`s.Extends t`** — from `s` to `t`, options stay and keep their types, and `t` agrees. -/
structure Extends (s t : Scene) : Prop where
  editor : s.editor.Extends t.editor
  window : t.context.Fits t.editor.globals

theorem Extends.agrees (h : s.Extends t) : t.Agrees := ⟨h.editor.agrees, h.window⟩

/-- The window stays, and options stay in the editor. -/
theorem Agrees.extends (h : s.Agrees) {e : Editor} {c : Context} (he : s.editor.Extends e)
    (hwindow : c.window = s.context.window) : s.Extends ⟨e, c⟩ := by
  refine ⟨he, fun w hw => ?_⟩
  exact (h.window w (hwindow ▸ hw)).trans he.types

theorem Agrees.tablesAt (h : s.Agrees) (place : Site) :
    (s.tablesAt place).options.Fits s.editor.globals := by
  cases place with
  | editor => exact .refl _
  | document id => exact h.editor.documents id
  | window =>
    unfold Scene.tablesAt
    cases hwindow : s.context.window with
    | none => exact .empty _
    | some w => exact h.window w hwindow

/-- What is in effect at a place has the type that the option has in the editor. -/
theorem Agrees.effective? (h : s.Agrees) {name : String} {base : OptionValue}
    (hbase : s.effective? place name = some base) :
    ∃ found, s.editor.globals.get? name = some found ∧ found.type = base.type := by
  obtain ⟨site, -, hheld⟩ := List.exists_of_findSome?_eq_some hbase
  exact h.tablesAt site name base hheld

theorem globals_setTablesAt (s : Scene) (place : Site) (tables : ScopeTables) :
    (s.setTablesAt place tables).editor.globals =
      if place = .editor then tables.options else s.editor.globals := by
  cases place <;> rfl

/-- **Tables that commands may put at a place** — their options have the types that they have in the
editor, where no type changes. -/
theorem Revises.fits (h : s.Revises place tables) (hs : s.Agrees) :
    s.editor.globals.Fits (s.setTablesAt place tables).editor.globals ∧
      tables.options.Fits (s.setTablesAt place tables).editor.globals := by
  rw [globals_setTablesAt]
  cases h with
  | aside hoptions =>
    rw [hoptions]
    split
    next heditor =>
      rw [heditor]
      exact ⟨.refl _, .refl _⟩
    next => exact ⟨.refl _, hs.tablesAt place⟩
  | @assign scope place name base value hplace hbase htype =>
    -- the base is what some place on the way outward holds, which fits already
    obtain ⟨found, hfound, htype'⟩ := hs.effective? ((base_eq_effective hplace).mp hbase)
    have hsame : found.type = value.type := htype'.trans htype.symm
    split
    next heditor =>
      rw [heditor]
      exact ⟨OptionStore.fits_set hfound hsame, .refl _⟩
    next => exact ⟨.refl _, (hs.tablesAt place).set hfound hsame⟩
  | declare hdeclared => exact ⟨OptionStore.fits_declare hdeclared, .refl _⟩

theorem Agrees.setTablesAt (hs : s.Agrees) (h : s.Revises place tables) :
    s.Extends (s.setTablesAt place tables) := by
  by_cases hplace : s.Has place
  · obtain ⟨htypes, htables⟩ := h.fits hs
    -- documents and the window are places alike: the one that was written, or one that stays
    have hfits : ∀ site, ((s.setTablesAt place tables).tablesAt site).options.Fits
        (s.setTablesAt place tables).editor.globals := by
      intro site
      rw [tablesAt_setTablesAt hplace]
      split
      · exact htables
      · exact (hs.tablesAt site).trans htypes
    refine ⟨⟨⟨fun id => hfits (.document id), fun ctx hctx => ?_⟩, htypes⟩, fun w hw => ?_⟩
    · rw [clients_setTablesAt] at hctx
      exact (hs.editor.clients ctx hctx).trans htypes
    · have hwindow := hfits .window
      rw [Scene.tablesAt, hw] at hwindow
      exact hwindow
  · rw [setTablesAt_of_not_has hplace]
    exact hs.extends hs.editor.refl rfl

/-- Undo and redo change a document, but for its tables, and the journal. -/
theorem Agrees.rewritten (hs : s.Agrees) (note : Happening) {d : Document}
    (hd : d.scopes = s.document.scopes) : s.Extends (s.rewritten note d) := by
  have hjot : s.editor.Extends (s.editor.jot note) := hs.editor.keep rfl rfl hs.editor.clients
  exact hs.extends (hjot.trans (hjot.agrees.setDocument hd)) rfl

/-- Another scene of an editor, in a context that has a window that fits, if it has one. -/
theorem agrees_inside {inside : Scene} (he : s.editor.Extends inside.editor)
    (hwindow : inside.context.Fits s.editor.globals) : inside.Agrees :=
  ⟨he.agrees, hwindow.trans he.types⟩

theorem opening_extends (hs : s.editor.Agrees) (documents : NameMap Nat) (name text : String) :
    s.editor.Extends (s.opening documents name text).editor := by
  have hcreated := hs.creating documents name text
  exact hcreated.trans (hcreated.agrees.setDocument rfl)

/-- **All moves** — by induction on the moves: options stay, with their types, and what hides them
fits. What is done in another context ends with that context fitting the editor as it is then. -/
theorem Moves.extends (h : Moves s t) (hs : s.Agrees) : s.Extends t := by
  induction h with
  | refl => exact hs.extends hs.editor.refl rfl
  | trans _ _ ih ih' =>
    have hfirst := ih hs
    have hlater := ih' hfirst.agrees
    exact ⟨hfirst.editor.trans hlater.editor, hlater.window⟩
  | note => exact hs.extends (hs.editor.keep rfl rfl hs.editor.clients) rfl
  | tables place tables hrevises => exact hs.setTablesAt hrevises
  | begin | turn => exact hs.extends hs.editor.refl rfl
  | finish s =>
    unfold ended
    dsimp only
    split
    · exact hs.extends (hs.editor.setDocument rfl) rfl
    · exact hs.extends hs.editor.refl rfl
  | stray | tell => exact hs.extends (hs.editor.keep rfl rfl hs.editor.clients) rfl
  | type id htyped => exact hs.extends (hs.editor.setDocument htyped.scopes_eq) rfl
  | undo s => exact hs.rewritten _ (Document.scopes_undo _)
  | redo s => exact hs.rewritten _ (Document.scopes_redo _)
  | select => exact hs.extends (hs.editor.setDocument rfl) rfl
  | retitle hrename => exact hs.extends (hs.editor.renameDocument hrename) rfl
  | rename hrename =>
    refine hs.extends (hs.editor.keep rfl rfl ?_) rfl
    intro ctx hctx
    obtain ⟨held, given, hheld, rfl⟩ := Clients.holds_of_rename hrename hctx
    exact hs.editor.clients held hheld
  | @create s t name documents text _ _ ih =>
    -- hooks run in a context without a window, which is released and leaves the editor only
    have hopened := opening_extends hs.editor documents name text
    have hdone := (ih (agrees_inside hopened (.of_none rfl))).editor
    exact hs.extends ((hopened.trans hdone).trans (hdone.agrees.release _)) rfl
  | @mute s t name documents text failed _ _ ih =>
    have hopened := opening_extends hs.editor documents name text
    have hdone := (ih (agrees_inside hopened (.of_none rfl))).editor
    have hreleased := hdone.agrees.release t.context
    have hmuted : t.editor.Extends
        ((t.editor.release t.context).muted s.editor.store.length failed) :=
      hreleased.trans (hreleased.agrees.setDocument rfl)
    exact hs.extends (((hopened.trans hdone).trans hmuted).trans
      (hmuted.agrees.keep rfl rfl hmuted.agrees.clients)) rfl
  | @draft s t _ ih =>
    have hdrafted : s.editor.Extends s.drafted.editor := hs.editor.setDocument rfl
    have hdone := (ih (agrees_inside hdrafted (.of_none rfl))).editor
    have hreleased := hdone.agrees.release t.context
    exact hs.extends (((hdrafted.trans hdone).trans hreleased).trans
      (hreleased.agrees.keep rfl rfl hreleased.agrees.clients)) rfl
  | @tracking s t id l _ ih =>
    have htracked : s.editor.Extends (s.tracking id l).editor := hs.editor.setDocument rfl
    have hdone := ih (agrees_inside htracked hs.window)
    have hdropped : t.Extends { t with
        editor := t.editor.modifyDocument id (·.unsubscribe (s.editor.document id).nextListener) } :=
      hdone.agrees.extends (hdone.editor.agrees.setDocument rfl) rfl
    exact ⟨(htracked.trans hdone.editor).trans hdropped.editor, hdropped.window⟩
  | @client s t name other clients hcheckout _ ih =>
    obtain ⟨hother, hheld⟩ := Clients.holds_of_checkout hcheckout
    -- while the other client is out, its window is in the scene and not among the clients
    have hout : s.editor.Extends { s.editor with clients } :=
      hs.editor.keep rfl rfl fun ctx hctx => hs.editor.clients ctx (hheld ctx hctx)
    have hdone := ih (agrees_inside hout (hs.editor.clients other hother))
    have hback := hdone.editor.agrees.checkin name hdone.window.forgetDrawing
    exact hs.extends (((hout.trans hdone.editor).trans hback).trans
      (hback.agrees.keep rfl rfl hback.agrees.clients)) rfl

end Scene

end ModalEdit
