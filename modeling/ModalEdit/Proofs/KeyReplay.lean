import ModalEdit.Proofs.MovingCommands
import ModalEdit.Proofs.RecordedEdits

/-!
# A replay of keys is one undo step

Keys that are pressed in an edition, where no hook listens to them, drive the input mode to and fro,
and open and close editions of their own. `Keyed` says where they can lead: the document has been
typed into, the yank register may have changed, and the context is in normal mode, as deep as it
was, or in insert mode and one edition deeper. No key closes the undo step. So when insert mode and
the edition are closed behind them, exactly one step has been made of all that they typed
(`replay_is_one_step`).

The replay fails only if a listener of the document does (`replay_fails_with_listener`).
-/

namespace ModalEdit

open Act Text

/-! ## Registers -/

namespace Registers

variable {r r' r'' : Registers}

theorem get?_erase (r : Registers) (name other : Char) :
    (r.erase name).get? other = if other = name then none else r.get? other := by
  obtain ⟨entries⟩ := r
  induction entries with
  | nil => simp [erase, get?]
  | cons entry entries ih =>
    simp only [erase, get?] at ih ⊢
    rw [List.filter_cons]
    grind

theorem get?_put (r : Registers) (name : Char) (values : List String) (other : Char) :
    (r.put name values).get? other = if other = name then some values else r.get? other := by
  have herase := r.get?_erase name other
  simp only [put, get?, erase] at herase ⊢
  grind

theorem get?_restoreOne (r : Registers) (name : Char) (held : Option (List String)) (other : Char) :
    (r.restoreOne (name, held)).get? other = if other = name then held else r.get? other := by
  cases held with
  | none => exact r.get?_erase name other
  | some values => exact r.get?_put name values other

/-- **`r.SameBut name r'`** — all registers but one hold the same. -/
def SameBut (name : Char) (r r' : Registers) : Prop :=
  ∀ other, other ≠ name → r'.get? other = r.get? other

theorem SameBut.put (h : SameBut name r r') (values : List String) :
    SameBut name r (r'.put name values) := by
  intro other hother
  rw [get?_put, if_neg hother]
  exact h other hother

/-- Registers that differ in one hold the same again when that is restored, with any other. -/
theorem SameBut.restore {name : Char} (h : SameBut name r r') (also : Char) (other : Char) :
    (r'.restore (r.save [name, also])).get? other = r.get? other := by
  have hrestore : r'.restore (r.save [name, also]) =
      (r'.restoreOne (name, r.get? name)).restoreOne (also, r.get? also) := rfl
  rw [hrestore, get?_restoreOne, get?_restoreOne]
  split
  next halso => rw [halso]
  next =>
    split
    next hname => rw [hname]
    next hother => exact h other hother

end Registers

/-! ## Where keys lead -/

namespace Scene

/-- The scene with another text of the document and other registers, where the context is in some
mode and some editions deeper. -/
def keyed (b : Scene) (d : Document) (registers : Registers) (mode : KeymapMode)
    (insertPosition : InsertPosition) (deeper : Nat) : Scene where
  editor := { b.editor.setDocument b.context.document d with registers }
  context :=
    { b.context with mode, insertPosition, editionLevel := b.context.editionLevel + deeper }

/-- **`Keyed b t`** — what was typed in the scene `b` leads to `t`. -/
inductive Keyed (b : Scene) : Scene → Prop
  | normal {d : Document} {r : Registers} (position : InsertPosition) :
    b.document.Typed d → b.editor.registers.SameBut Registers.yank r →
      Keyed b (b.keyed d r .normal position 0)
  | insert {d : Document} {r : Registers} (position : InsertPosition) :
    b.document.Typed d → b.editor.registers.SameBut Registers.yank r →
      Keyed b (b.keyed d r .insert position 1)

/-- **`b.OpenToKeys`** — an edition is open, keys edit, and no hook of the tables that the context
sees listens to them. -/
structure OpenToKeys (b : Scene) : Prop where
  stored : b.context.document < b.editor.store.length
  editing : 0 < b.context.editionLevel
  input : b.editor.input = .basic
  unhooked : ∀ tables ∈ b.visibleTables,
    tables.hooks.hooks "NormalKey" = [] ∧ tables.hooks.hooks "InsertKey" = []

section Keyed

variable {b t : Scene} {d : Document} {r : Registers} {mode : KeymapMode}
  {position : InsertPosition} {deeper : Nat}

theorem document_keyed (hb : b.context.document < b.editor.store.length) :
    (b.keyed d r mode position deeper).document = d := by
  have hdocument := b.editor.document_setDocument b.context.document b.context.document d
  rw [if_pos ⟨rfl, hb⟩] at hdocument
  exact hdocument

theorem setDocument_keyed (d' : Document) :
    { b.keyed d r mode position deeper with
      editor := (b.keyed d r mode position deeper).editor.setDocument b.context.document d' } =
      b.keyed d' r mode position deeper := by
  simp only [keyed, Editor.setDocument, List.set_set]

/-- Nothing typed, and nothing else changed. -/
theorem keyed_self (hb : b.context.document < b.editor.store.length) :
    b.keyed b.document b.editor.registers b.context.mode b.context.insertPosition 0 = b := by
  have hset : b.editor.setDocument b.context.document b.document = b.editor :=
    b.editor.setDocument_self hb
  rw [keyed, hset]
  rfl

theorem visibleTables_keyed_of_scopes (hb : b.context.document < b.editor.store.length)
    (hd : d.scopes = b.document.scopes) :
    (b.keyed d r mode position deeper).visibleTables = b.visibleTables := by
  rw [visibleTables, document_keyed hb, hd]
  rfl

theorem visibleTables_keyed (hb : b.context.document < b.editor.store.length)
    (hd : b.document.Typed d) :
    (b.keyed d r mode position deeper).visibleTables = b.visibleTables :=
  visibleTables_keyed_of_scopes hb hd.scopes_eq

/-- The end of an edition in an open one closes no step. -/
theorem ended_keyed (hb : 0 < b.context.editionLevel + deeper) :
    (b.keyed d r mode position (deeper + 1)).checked.ended = b.keyed d r mode position deeper := by
  rw [checked_of_editing (s := b.keyed d r mode position (deeper + 1)) (Nat.succ_pos _)]
  have hopen : ¬(b.context.editionLevel + deeper = 0 ∧ b.context.undoEnabled = true) :=
    fun h => hb.ne' h.1
  rw [ended_of_open (s := b.keyed d r mode position (deeper + 1)) hopen]
  rfl

/-- The end of the edition of a replay closes the undo step, if no other edition is open. -/
theorem ended_begun (hb : b.context.document < b.editor.store.length) :
    (b.begun.keyed d r mode position 0).checked.ended =
      b.keyed (if b.context.editionLevel = 0 ∧ b.context.undoEnabled = true then d.commit else d) r
        mode position 0 := by
  rw [checked_of_editing (s := b.begun.keyed d r mode position 0) (Nat.succ_pos _)]
  have hdocument : (b.begun.keyed d r mode position 0).editor.document b.context.document = d :=
    document_keyed (b := b.begun) hb
  have hcommit : { b.begun.keyed d r mode position 0 with
      editor := (b.begun.keyed d r mode position 0).editor.setDocument b.context.document d.commit } =
      b.begun.keyed d.commit r mode position 0 := setDocument_keyed d.commit
  split
  next hlast =>
    rw [ended_of_last (s := b.begun.keyed d r mode position 0) hlast.1 hlast.2]
    show Scene.mk ((b.begun.keyed d r mode position 0).editor.setDocument b.context.document
      ((b.begun.keyed d r mode position 0).editor.document b.context.document).commit) _ = _
    rw [hdocument]
    exact congrArg₂ Scene.mk (congrArg Scene.editor hcommit) rfl
  next hopen => exact ended_of_open (s := b.begun.keyed d r mode position 0) hopen

theorem perform_edit_keyed (hb : b.context.document < b.editor.store.length)
    (f : Document → Except SelectionError Unit × Document) :
    (edit f).perform (b.keyed d r mode position deeper) =
      ((f d).1.mapError CommandError.invalidSelections,
        b.keyed (f d).2 r mode position deeper) := by
  rw [perform_edit, document_keyed hb]
  exact Prod.ext rfl (setDocument_keyed _)

end Keyed

/-! ## Acts of keys -/

/-- **`Confined b act`** — the act keeps to where keys can lead, unless it takes a step back or
makes one again; and it succeeds if no listener fails. -/
def Confined (b : Scene) (act : Act Scene Unit) : Prop :=
  ∀ t, Keyed b t →
    (∀ note ∈ t.since (act.perform t).2, ¬ note.IsRewrite b.context.document) →
    Keyed b (act.perform t).2 ∧ (b.document.Obliging → (act.perform t).1 = .ok ())

section Acts

variable {b t : Scene} {d : Document} {r : Registers} {position : InsertPosition}

theorem confined_pure (b : Scene) : Confined b (pure ()) := fun _ ht _ => ⟨ht, fun _ => rfl⟩

theorem Confined.forM {keys : List Key} {f : Key → Act Scene Unit} (h : ∀ key, Confined b (f key))
    (hmoving : ∀ key, Moving (f key)) : Confined b (keys.forM f) := by
  induction keys with
  | nil => exact confined_pure b
  | cons key keys ih =>
    intro t ht hnotes
    have hcons : (key :: keys).forM f = (f key >>= fun _ => keys.forM f) := rfl
    rw [hcons] at hnotes ⊢
    have hfirst := h key t ht
    have hmoves := hmoving key t
    rw [perform_bind] at hnotes ⊢
    generalize (f key).perform t = done at hfirst hmoves hnotes ⊢
    obtain ⟨_ | _, u⟩ := done
    · exact hfirst hnotes
    · have hrest : Moves u ((keys.forM f).perform u).2 := obeys_forM hmoving u
      have hsplit := hmoves.since_trans hrest
      dsimp only at hnotes hsplit
      rw [hsplit] at hnotes
      obtain ⟨hu, -⟩ := hfirst fun note hnote => hnotes note (List.mem_append_left _ hnote)
      exact ih u hu fun note hnote => hnotes note (List.mem_append_right _ hnote)

/-- Typing in either mode. -/
theorem Keyed.edit (hb : b.OpenToKeys) (ht : Keyed b t)
    {f : Document → Except SelectionError Unit × Document} (hf : ∀ d : Document, d.Types (f d)) :
    Keyed b ((edit f).perform t).2 ∧ (b.document.Obliging → ((edit f).perform t).1 = .ok ()) := by
  cases ht with
  | @normal d r position hd hr =>
    rw [perform_edit_keyed hb.stored]
    refine ⟨.normal position (hd.trans (hf d).typed) hr, fun hobliging => ?_⟩
    obtain ⟨_, hok⟩ := (hf d).succeeds (hd.obliging hobliging)
    dsimp only
    rw [hok]
    rfl
  | @insert d r position hd hr =>
    rw [perform_edit_keyed hb.stored]
    refine ⟨.insert position (hd.trans (hf d).typed) hr, fun hobliging => ?_⟩
    obtain ⟨_, hok⟩ := (hf d).succeeds (hd.obliging hobliging)
    dsimp only
    rw [hok]
    rfl

theorem perform_insert (texts : List String) (side : InsertPosition) (t : Scene) :
    (insert texts side).perform t =
      (Scene.edit (·.insertAll t.context.tracker texts side)).perform t := rfl

theorem perform_erase (t : Scene) :
    erase.perform t = (Scene.edit (·.eraseAll t.context.tracker)).perform t := rfl

theorem perform_eraseBefore (t : Scene) :
    eraseBefore.perform t = (Scene.edit (·.eraseBeforeAll t.context.tracker)).perform t := rfl

theorem perform_yankSelections (t : Scene) :
    yankSelections.perform t = (.ok (), { t with editor := { t.editor with
      registers := t.editor.registers.put Registers.yank t.selectedTexts } }) := rfl

theorem perform_inEdition (act : Act Scene Unit) (t : Scene) :
    (inEdition act).perform t = ((act.perform t.begun).1, (act.perform t.begun).2.checked.ended) := by
  simp only [inEdition, perform_bind, perform_beginEdition, perform_attempt, perform_endEdition,
    perform_ofExcept]

/-- In an open edition, an edition of an edit is but the edit. -/
theorem Keyed.inEdition (hb : b.OpenToKeys) (hd : b.document.Typed d)
    (hr : b.editor.registers.SameBut Registers.yank r) {act : Act Scene Unit}
    {f : Document → Except SelectionError Unit × Document} (hf : ∀ d : Document, d.Types (f d))
    (hact : ∀ t, t.context.tracker = b.context.tracker → act.perform t = (Scene.edit f).perform t) :
    let done := (Scene.inEdition act).perform (b.keyed d r .normal position 0)
    Keyed b done.2 ∧ (b.document.Obliging → done.1 = .ok ()) := by
  have hbegun : (b.keyed d r .normal position 0).begun = b.keyed d r .normal position 1 := rfl
  have hedit := Keyed.edit hb (.normal position hd hr) hf
  rw [perform_edit_keyed hb.stored] at hedit
  rw [perform_inEdition, hbegun, hact (b.keyed d r .normal position 1) rfl,
    perform_edit_keyed hb.stored]
  dsimp only
  rw [ended_keyed (Nat.add_pos_left hb.editing 0)]
  exact hedit

/-- What takes a step back or makes one again tells the journal. -/
theorem mem_since_rewrite (happening : Context → Happening)
    (f : Document → Except SelectionError Bool × Document) (text : String) (t : Scene) :
    let act : Act Scene Unit := do
      let s ← get
      modifyEditor (·.jot (happening s.context))
      unless ← Scene.edit f do print text
    happening t.context ∈ t.since (act.perform t).2 := by
  intro act
  have hjournal : (act.perform t).2.editor.journal =
      t.editor.journal ++ [happening t.context] := by
    have hedit : (Scene.edit f).perform { t with editor := t.editor.jot (happening t.context) } =
      ((f t.document).1.mapError CommandError.invalidSelections,
        t.rewritten (happening t.context) (f t.document).2) := perform_edit _ _
    rw [perform_bind_ok (perform_get t), perform_bind_ok (perform_modifyEditor _ t), perform_bind,
      hedit]
    rcases (f t.document).1 with _ | (_ | _) <;> rfl
  rw [since_eq hjournal]
  exact List.mem_cons_self

theorem keyed_normalKey (hb : b.OpenToKeys) (hd : b.document.Typed d)
    (hr : b.editor.registers.SameBut Registers.yank r) (key : Key) :
    let t := b.keyed d r .normal position 0
    (∀ note ∈ t.since ((normalKey key).perform t).2, ¬ note.IsRewrite b.context.document) →
      Keyed b ((normalKey key).perform t).2 ∧
        (b.document.Obliging → ((normalKey key).perform t).1 = .ok ()) := by
  intro t hnotes
  unfold normalKey at hnotes ⊢
  split at hnotes
  next c _ =>
    unfold normalCommand at hnotes ⊢
    split at hnotes
    · exact ⟨.insert .before hd hr, fun _ => rfl⟩
    · exact ⟨.insert .after hd hr, fun _ => rfl⟩
    · exact ⟨.normal position hd (hr.put _), fun _ => rfl⟩
    · rw [perform_bind_ok (perform_yankSelections t)]
      exact Keyed.inEdition hb hd (hr.put _) (fun d => d.types_eraseAll _)
        fun t ht => ht ▸ perform_erase t
    · rw [paste, perform_bind_ok (perform_get t)]
      exact Keyed.inEdition hb hd hr (fun d => d.types_insertAll _ _ _)
        fun t ht => ht ▸ perform_insert _ _ t
    · rw [paste, perform_bind_ok (perform_get t)]
      exact Keyed.inEdition hb hd hr (fun d => d.types_insertAll _ _ _)
        fun t ht => ht ▸ perform_insert _ _ t
    · exact absurd rfl (hnotes _ (mem_since_rewrite (fun c => .undone c.document) _ _ t))
    · exact absurd rfl (hnotes _ (mem_since_rewrite (fun c => .redone c.document) _ _ t))
    · exact ⟨.normal position hd hr, fun _ => rfl⟩
  next => exact ⟨.normal position hd hr, fun _ => rfl⟩

theorem keyed_insertKey (hb : b.OpenToKeys) (hd : b.document.Typed d)
    (hr : b.editor.registers.SameBut Registers.yank r) (key : Key) :
    let t := b.keyed d r .insert position 1
    Keyed b ((insertKey key).perform t).2 ∧
      (b.document.Obliging → ((insertKey key).perform t).1 = .ok ()) := by
  intro t
  have ht : Keyed b t := .insert position hd hr
  have htype : ∀ text, Keyed b ((typeText text).perform t).2 ∧
      (b.document.Obliging → ((typeText text).perform t).1 = .ok ()) := by
    intro text
    rw [typeText, perform_bind_ok (perform_get t), perform_insert]
    exact Keyed.edit hb ht fun d => d.types_insertAll _ _ _
  unfold insertKey
  split
  · exact ⟨ht, fun _ => rfl⟩
  · split
    · have hended : (t.turned .normal position).checked.ended = b.keyed d r .normal position 0 :=
        ended_keyed (Nat.add_pos_left hb.editing 0)
      have hescaping : t.escaping = t := if_pos rfl
      rw [perform_leaveInsertMode, hescaping]
      refine ⟨?_, fun _ => rfl⟩
      show Keyed b (t.turned .normal position).checked.ended
      rw [hended]
      exact .normal position hd hr
    · rw [perform_eraseBefore]
      exact Keyed.edit hb ht fun d => d.types_eraseBeforeAll _
    · exact htype _
    · exact htype _
    · exact htype _
    · exact ⟨ht, fun _ => rfl⟩

theorem perform_runHook_of_none {run : Runner} {event param : String}
    (h : ∀ tables ∈ t.visibleTables, tables.hooks.hooks event = []) :
    (runHook run event param).perform t = (.ok (), t) := by
  have hnone : t.hooksFor event param = [] := by
    refine List.flatMap_eq_nil_iff.mpr fun tables htables => ?_
    rw [HookTable.matching, h tables htables]
    rfl
  rw [runHook, perform_bind_ok (perform_get t), hnone]
  rfl

/-- **One key** — its mapping has been applied, and no hook listens to it. -/
theorem confined_pressUnmapped (hb : b.OpenToKeys) (key : Key) :
    Confined b (pressUnmapped execute key) := by
  intro t ht hnotes
  have hbasic : (pressUnmapped execute key).perform t = (basicKey execute key).perform t := by
    have hinput : t.editor.input = .basic := by cases ht <;> exact hb.input
    rw [pressUnmapped, perform_bind_ok (perform_get t), hinput]
  rw [hbasic, basicKey, perform_bind_ok (perform_get t)] at hnotes ⊢
  cases ht with
  | @normal d r position hd hr =>
    have hhook : (runHook execute "NormalKey" key.text).perform (b.keyed d r .normal position 0) =
        (.ok (), b.keyed d r .normal position 0) := by
      refine perform_runHook_of_none fun tables htables => ?_
      rw [visibleTables_keyed hb.stored hd] at htables
      exact (hb.unhooked tables htables).1
    have hmode : (b.keyed d r .normal position 0).context.mode ≠ .insert := nofun
    rw [if_neg hmode, perform_bind_ok hhook] at hnotes ⊢
    exact keyed_normalKey hb hd hr key hnotes
  | @insert d r position hd hr =>
    have hhook : (runHook execute "InsertKey" key.text).perform (b.keyed d r .insert position 1) =
        (.ok (), b.keyed d r .insert position 1) := by
      refine perform_runHook_of_none fun tables htables => ?_
      rw [visibleTables_keyed hb.stored hd] at htables
      exact (hb.unhooked tables htables).2
    have hmode : (b.keyed d r .insert position 1).context.mode = .insert := rfl
    rw [if_pos hmode, perform_bind_ok hhook]
    exact keyed_insertKey hb hd hr key

theorem confined_press (hb : b.OpenToKeys) (key : Key) : Confined b (press execute key) := by
  intro t ht hnotes
  rw [press, perform_bind_ok (perform_get t)] at hnotes ⊢
  split at hnotes
  next keys _ =>
    have hmapped : Confined b (keys.forM (pressUnmapped execute)) :=
      .forM (confined_pressUnmapped hb) (moving_pressUnmapped moving_execute)
    exact hmapped t ht hnotes
  next => exact confined_pressUnmapped hb key t ht hnotes

/-- **All keys** — by induction on the keys. -/
theorem confined_pressAll (hb : b.OpenToKeys) (keys : List Key) :
    Confined b (pressAll execute keys) :=
  Confined.forM (confined_press hb) (obeys_press (moving_pressUnmapped moving_execute))

end Acts

/-! ## A replay -/

/-- The scene in which insert mode is left if keys have entered it in the mode `before`. -/
def closing (t : Scene) (before : KeymapMode) : Scene :=
  if before ≠ .insert ∧ t.context.mode = .insert then
    (t.turned before t.context.insertPosition).checked.ended
  else t

theorem perform_closeInsertMode (before : KeymapMode) (t : Scene) :
    (closeInsertMode before).perform t = (.ok (), t.closing before) := by
  rw [closeInsertMode, perform_bind_ok (perform_get t), closing]
  split
  · rw [perform_bind_ok (perform_modifyContext _ t), perform_endEdition]
    rfl
  · rfl

/-- The scene with registers as they were saved. -/
def restored (t : Scene) (saved : List (Char × Option (List String))) : Scene :=
  { t with editor := { t.editor with registers := t.editor.registers.restore saved } }

theorem perform_replayKeys (run : Runner) (keys : List Key) (s : Scene) :
    (replayKeys run keys).perform s =
      let pressed := (pressAll run keys).perform s.begun
      (pressed.1, (pressed.2.closing s.context.mode).checked.ended.restored
        (s.editor.registers.save [Registers.yank, Registers.search])) := by
  rw [replayKeys, perform_bind_ok (perform_get s), perform_bind_ok (perform_beginEdition s),
    perform_bind_ok (perform_attempt _ _), perform_bind_ok (perform_closeInsertMode _ _),
    perform_bind_ok (perform_endEdition _), perform_bind_ok (perform_modifyEditor _ _),
    perform_ofExcept]
  rfl

/-- Insert mode and its edition are closed, if keys have left them open. -/
theorem Keyed.closing_eq {b t : Scene} (h : Keyed b t) (hb : b.OpenToKeys) :
    ∃ d r position, b.document.Typed d ∧ b.editor.registers.SameBut Registers.yank r ∧
      t.closing .normal = b.keyed d r .normal position 0 := by
  cases h with
  | @normal d r position hd hr =>
    exact ⟨d, r, position, hd, hr, if_neg fun hinsert => nomatch hinsert.2⟩
  | @insert d r position hd hr =>
    refine ⟨d, r, position, hd, hr, ?_⟩
    rw [closing, if_pos ⟨nofun, rfl⟩]
    exact ended_keyed (Nat.add_pos_left hb.editing 0)

/-- **`s.AtRest`** — the context is on a document that keeps a history and has nothing pending; it
is in normal mode and in no edition, and closes its undo steps itself; and keys edit, with no hook
listening to them. -/
structure AtRest (s : Scene) : Prop where
  stored : s.context.document < s.editor.store.length
  recording : s.document.noUndo = false
  nonePending : s.document.history.pending = []
  mode : s.context.mode = .normal
  level : s.context.editionLevel = 0
  undoEnabled : s.context.undoEnabled = true
  input : s.editor.input = .basic
  unhooked : ∀ tables ∈ s.visibleTables,
    tables.hooks.hooks "NormalKey" = [] ∧ tables.hooks.hooks "InsertKey" = []

variable {s : Scene}

theorem AtRest.openToKeys (h : s.AtRest) : s.begun.OpenToKeys :=
  ⟨h.stored, Nat.succ_pos _, h.input, h.unhooked⟩

/-- Keys start where nothing has been typed yet. -/
theorem AtRest.keyed_begun (h : s.AtRest) : Keyed s.begun s.begun := by
  have hself : s.begun.keyed s.document s.editor.registers s.context.mode s.context.insertPosition 0 =
      s.begun := keyed_self (b := s.begun) h.stored
  rw [h.mode] at hself
  have hkeyed : Keyed s.begun (s.begun.keyed s.document s.editor.registers .normal
      s.context.insertPosition 0) := .normal _ .refl fun _ _ => rfl
  rwa [hself] at hkeyed

/-- The end of the edition of a replay closes the undo step. -/
theorem AtRest.ended_begun (h : s.AtRest) (d : Document) (r : Registers)
    (position : InsertPosition) :
    (s.begun.keyed d r .normal position 0).checked.ended =
      s.keyed d.commit r .normal position 0 := by
  rw [Scene.ended_begun h.stored, if_pos ⟨h.level, h.undoEnabled⟩]

theorem moves_closing (t : Scene) (before : KeymapMode) :
    Moves t (t.closing before).checked.ended := by
  have hclose := moving_closeInsertMode before t
  rw [perform_closeInsertMode] at hclose
  exact hclose.trans (.endEdition _)

/-- What a replay comes to: the document has been typed into, with one commit behind it, and the
registers hold what they held. -/
theorem AtRest.replay_eq (h : s.AtRest) (keys : List Key)
    (hnotes : ∀ note ∈ s.since ((replayKeys execute keys).perform s).2,
      ¬ note.IsRewrite s.context.document) :
    ∃ d r position, s.document.Typed d ∧ (∀ name, r.get? name = s.editor.registers.get? name) ∧
      ((replayKeys execute keys).perform s).2 = s.keyed d.commit r .normal position 0 ∧
      (s.document.Obliging → ((replayKeys execute keys).perform s).1 = .ok ()) := by
  rw [perform_replayKeys] at hnotes ⊢
  dsimp only at hnotes ⊢
  have hconfined := confined_pressAll h.openToKeys keys s.begun h.keyed_begun
  generalize (pressAll execute keys).perform s.begun = pressed at hnotes hconfined ⊢
  obtain ⟨hkeyed, hok⟩ := hconfined fun note hnote => hnotes note
    (Editor.since_subset rfl _ (moves_closing _ _).journal_eq hnote)
  obtain ⟨d, r, position, hd, hr, hclosing⟩ := hkeyed.closing_eq h.openToKeys
  refine ⟨d, _, position, hd, hr.restore Registers.search, ?_, hok⟩
  rw [h.mode, hclosing, h.ended_begun]
  rfl

/-- **A replay is one undo step** — whatever keys are replayed at rest, and whatever they are mapped
to, if none takes a step back or makes one again: the replay succeeds if no listener of the document
fails. Whether it does or not, the context is as it was, but for the side on which it types, and all
registers hold what they held. Nothing is left pending. If no change was made, the text and the
history are as they were; else there is one step more to undo, undo leads back to the text from
before, and redo to the text after. -/
theorem replay_is_one_step (s : Scene) (keys : List Key) (h : s.AtRest)
    (hnotes : ∀ note ∈ s.since ((replayKeys execute keys).perform s).2,
      ¬ note.IsRewrite s.context.document) :
    let done := (replayKeys execute keys).perform s
    let d := s.document
    let e := done.2.document
    (d.Obliging → done.1 = .ok ()) ∧
      (∃ position, done.2.context = { s.context with insertPosition := position }) ∧
      (∀ name, done.2.editor.registers.get? name = s.editor.registers.get? name) ∧
      e.history.pending = [] ∧
      (e.timestamp = d.timestamp → e.text = d.text ∧ e.history = d.history) ∧
      (e.timestamp ≠ d.timestamp → e.undoDepth = d.undoDepth + 1 ∧ e.undo.1 ≠ .ok false ∧
        e.undo.2.text = d.text ∧ e.undo.2.redo.2.text = e.text) := by
  obtain ⟨typed, r, position, htyped, hr, hdone, hok⟩ := h.replay_eq keys hnotes
  obtain ⟨changes, hwritten⟩ := htyped.exists_written
  have hdocument : ((replayKeys execute keys).perform s).2.document = typed.commit := by
    rw [hdone, document_keyed h.stored]
  have hcontext : ((replayKeys execute keys).perform s).2.context =
      { s.context with insertPosition := position } := by
    rw [hdone, keyed, ← h.mode]
    rfl
  have hregisters : ∀ name, ((replayKeys execute keys).perform s).2.editor.registers.get? name =
      s.editor.registers.get? name := by
    rw [hdone]
    exact hr
  have htimestamp : changes = [] ↔ typed.commit.timestamp = s.document.timestamp :=
    hwritten.nil_iff
  intro done d e
  have he : e = typed.commit := hdocument
  rw [he]
  refine ⟨hok, ⟨position, hcontext⟩, hregisters, ?_, ?_, ?_⟩
  · exact typed.pending_commit
  · intro hsame
    obtain rfl := htimestamp.mpr hsame
    have hhistory : typed.history = s.document.history := hwritten.history
    rw [Document.commit_of_none (by rw [hhistory, h.nonePending])]
    exact ⟨hwritten.text_eq, hhistory⟩
  · intro hother
    have hsome : changes ≠ [] := fun hnone => hother (htimestamp.mp hnone)
    obtain ⟨hdid, hundo, hredo⟩ := hwritten.undo_commit h.recording hsome h.nonePending
    refine ⟨?_, hdid, hundo, hredo⟩
    rw [Document.undoDepth, hwritten.history_commit h.recording hsome]
    rfl

/-- The key `q` stands for deleting the selection and entering insert mode, which is left open. -/
theorem replay_is_one_step_mapped :
    let cut : Binding := ⟨.normal, .ofChar 'q', [.ofChar 'd', .ofChar 'i']⟩
    let d : Document :=
      { name := "notes", text := ['a', 'b', 'c'], nextListener := 1
        listeners := [⟨0, .tracker ⟨[⟨⟨0, 0⟩, ⟨0, 2⟩, []⟩], 0⟩⟩]
        scopes := { keymaps := ⟨[cut]⟩ } }
    let s : Scene := ⟨{ store := [d] }, { name := "main", document := 0, tracker := 0 }⟩
    let done := (replayKeys execute [.ofChar 'q', .ofChar 'x']).perform s
    s.AtRest ∧ s.document.Obliging ∧ done.1 = .ok () ∧ done.2.document.text = ['x', 'c'] ∧
      done.2.document.undoDepth = 1 ∧ done.2.document.undo.2.text = ['a', 'b', 'c'] ∧
      done.2.document.undo.2.redo.2.text = ['x', 'c'] := by
  intro cut d s
  have hs : s.AtRest := by
    refine ⟨Nat.zero_lt_one, rfl, rfl, rfl, rfl, rfl, rfl, fun tables htables => ?_⟩
    rcases List.mem_pair.mp htables with rfl | rfl <;> exact ⟨rfl, rfl⟩
  have hobliging : s.document.Obliging := by
    intro l hl
    rw [List.mem_singleton.mp hl]
    exact Nat.zero_lt_one
  have hrun : (fun t : Scene => (s.since t, t.document.text, t.document.timestamp))
      ((replayKeys execute [.ofChar 'q', .ofChar 'x']).perform s).2 = ([], ['x', 'c'], 2) := by
    decide +kernel
  have hmain := replay_is_one_step s [.ofChar 'q', .ofChar 'x'] hs fun note hnote =>
    absurd ((Prod.mk.inj hrun).1 ▸ hnote) List.not_mem_nil
  -- the run is not evaluated again
  generalize (replayKeys execute [.ofChar 'q', .ofChar 'x']).perform s = done at hrun hmain ⊢
  obtain ⟨-, hrun⟩ := Prod.mk.inj hrun
  obtain ⟨htext, htimestamp⟩ := Prod.mk.inj hrun
  obtain ⟨hok, -, -, -, -, hstep⟩ := hmain
  obtain ⟨hdepth, -, hundo, hredo⟩ := hstep (htimestamp.trans_ne (by decide))
  exact ⟨hs, hobliging, hok hobliging, htext, hdepth, hundo, hredo.trans htext⟩

/-- A listener that fails makes the replay fail; what was typed is one step all the same. -/
theorem replay_fails_with_listener :
    let d : Document :=
      { name := "notes", text := ['a'], nextListener := 2
        listeners := [⟨0, .tracker default⟩,
          ⟨1, .observer "guard" fun _ => { failure := some .empty }⟩] }
    let s : Scene := ⟨{ store := [d] }, { name := "main", document := 0, tracker := 0 }⟩
    let done := (replayKeys execute [.ofChar 'i', .ofChar 'x']).perform s
    s.AtRest ∧ s.since done.2 = [] ∧ done.1 = .error (.invalidSelections .empty) ∧
      done.2.document.text = ['x', 'a'] ∧ done.2.document.undoDepth = 1 := by
  intro d s done
  have hs : s.AtRest := by
    refine ⟨Nat.zero_lt_one, rfl, rfl, rfl, rfl, rfl, rfl, fun tables htables => ?_⟩
    rcases List.mem_pair.mp htables with rfl | rfl <;> exact ⟨rfl, rfl⟩
  have hdone : (fun done : Except CommandError Unit × Scene =>
      (s.since done.2, done.1, done.2.document.text, done.2.document.undoDepth))
        ((replayKeys execute [.ofChar 'i', .ofChar 'x']).perform s) =
          ([], .error (.invalidSelections .empty), ['x', 'a'], 1) := by
    decide +kernel
  simp only [Prod.mk.injEq] at hdone
  exact ⟨hs, hdone⟩

end Scene

end ModalEdit
