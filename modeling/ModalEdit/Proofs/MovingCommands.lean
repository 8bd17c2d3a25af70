import ModalEdit.Editor.Configuring
import ModalEdit.Proofs.ObeyingCommands

/-!
# Every command line makes moves only

What is missing for that is what keys do with editions and with the input mode. A config makes moves
only, too, since its entries do what commands do.
-/

namespace ModalEdit.Scene

open Act Text

instance : Admits Moves where
  refl := .refl
  trans := .trans
  note := .note
  tables := .tables
  type := .type
  tell := .tell
  undo := .undo
  redo := .redo
  select := .select
  retitle := .retitle
  rename := .rename
  create := .create
  mute := .mute
  draft := .draft
  tracking := .tracking
  client := .client

/-- **`Moving act`** — the act makes moves only, whether it fails or not. -/
def Moving {α : Type} (act : Act Scene α) : Prop := Obeys Moves act

/-! ## Editions and the input mode -/

theorem Moves.endEdition (s : Scene) : Moves s s.checked.ended := by
  refine .trans ?_ (.finish s.checked)
  unfold checked
  split
  · exact .stray s trivial
  · exact .refl s

theorem moving_inEdition {act : Act Scene Unit} (h : Moving act) : Moving (inEdition act) := by
  refine Obeys.bind (fun s => Moves.begin s) fun _ => h.attempt.bind fun _ => ?_
  refine Obeys.bind (fun s => ?_) fun _ => obeys_ofExcept _
  rw [perform_endEdition]
  exact .endEdition s

theorem moving_enterInsertMode (position : InsertPosition) : Moving (enterInsertMode position) :=
  fun s => .trans (.turn s .insert position) (.begin _)

theorem perform_leaveInsertMode (s : Scene) :
    leaveInsertMode.perform s =
      (.ok (), (s.escaping.turned .normal s.context.insertPosition).checked.ended) := by
  have hleave : ∀ t : Scene, (do
      modifyContext fun c => { c with mode := .normal }
      Scene.endEdition : Act Scene Unit).perform t =
        (.ok (), (t.turned .normal t.context.insertPosition).checked.ended) := by
    intro t
    rw [perform_bind_ok (perform_modifyContext _ t), perform_endEdition]
    rfl
  rw [leaveInsertMode, perform_bind_ok (perform_get s), escaping]
  split
  · exact hleave s
  · rw [perform_bind_ok (perform_modifyEditor _ s)]
    exact hleave _

theorem moving_leaveInsertMode : Moving leaveInsertMode := by
  intro s
  rw [perform_leaveInsertMode]
  refine .trans ?_ (.trans (.turn s.escaping .normal _) (.endEdition _))
  unfold escaping
  split
  · exact .refl s
  · exact .stray s trivial

theorem moving_normalKey (key : Key) : Moving (normalKey key) := by
  rcases obeys_normalKey (R := Moves) (fun _ => moving_inEdition) key with ⟨position, henter⟩ | h
  · rw [henter]
    exact moving_enterInsertMode position
  · exact h

theorem moving_insertKey (key : Key) : Moving (insertKey key) := by
  rcases obeys_insertKey (R := Moves) key with hleave | h
  · rw [hleave]
    exact moving_leaveInsertMode
  · exact h

theorem moving_closeInsertMode (before : KeymapMode) : Moving (closeInsertMode before) := by
  refine Obeys.bind obeys_get ?_
  intro s
  split
  · intro t
    rw [perform_bind_ok (perform_modifyContext _ t), perform_endEdition]
    exact .trans (.turn t before t.context.insertPosition) (.endEdition _)
  · exact obeys_pure _

/-! ## Presses of keys -/

section Pressing

variable {run : Runner} (hrun : ∀ env line, Moving (run env line))

include hrun

/-- Hooks on a key run before the key does what it does. -/
theorem moving_pressUnmapped (key : Key) : Moving (pressUnmapped run key) := by
  refine Obeys.bind obeys_get ?_
  intro s
  split
  · refine Obeys.bind obeys_get ?_
    intro s
    split
    · exact Obeys.bind (obeys_runHook hrun _ _) fun _ => moving_insertKey key
    · exact Obeys.bind (obeys_runHook hrun _ _) fun _ => moving_normalKey key
  · exact obeys_echoKey key

theorem moving_pressAll (keys : List Key) : Moving (pressAll run keys) :=
  obeys_forM (obeys_press (moving_pressUnmapped hrun))

theorem moving_replayKeys (keys : List Key) : Moving (replayKeys run keys) := by
  refine Obeys.bind obeys_get fun s => Obeys.bind (fun t => Moves.begin t) ?_
  intro _
  refine (moving_pressAll hrun keys).attempt.bind ?_
  intro _
  refine (moving_closeInsertMode _).bind fun _ => Obeys.bind (fun t => ?_) ?_
  · rw [perform_endEdition]
    exact .endEdition t
  · refine fun _ => Obeys.bind ?_ fun _ => obeys_ofExcept _
    exact fun t => .note _ t.editor.commands t.editor.definedHighlighters t.editor.status
      t.editor.shellCalls t.editor.fileReads

end Pressing

theorem moving_execute (env : Environment) (line : String) : Moving (execute env line) :=
  obeys_execute (fun _ => moving_replayKeys) env line

/-- Creating a document makes moves, seen from any context. -/
theorem moves_createDocument (s : Scene) (name text : String) :
    Moves s { s with editor := ((Editor.createDocument execute name text).perform s.editor).2 } := by
  cases hinsert : s.editor.documents.insert name s.editor.store.length with
  | error error =>
    rw [perform_createDocument_of_error hinsert]
    exact .refl s
  | ok documents =>
    rw [perform_createDocument hinsert]
    exact .create text hinsert
      (obeys_runHook moving_execute "BufCreate" name (s.opening documents name text))

/-! ## Configs -/

theorem moving_failures {acts : List (Act Scene Unit)} (h : ∀ act ∈ acts, Moving act) :
    Moving (failures acts) := by
  induction acts with
  | nil => exact obeys_pure _
  | cons act rest ih =>
    obtain ⟨hact, hrest⟩ := List.forall_mem_cons.mp h
    refine hact.attempt.bind ?_
    intro result
    split
    · exact ih hrest
    · exact (ih hrest).bind fun _ => obeys_pure _

theorem moving_applyOption (name : String) (value : Toml.Value) :
    Moving (applyOption name value) := by
  unfold applyOption
  split
  · exact obeys_throw _
  next text _ =>
    refine fun s => leads_updateTables ?_
    intro place found hplace hassigned
    obtain ⟨⟨value, options⟩, hoptions, rfl⟩ := map_eq_ok.mp hassigned
    obtain ⟨base, hbase, hvalue, rfl⟩ := OptionStore.setText_eq_ok.mp hoptions
    exact .assign hplace hbase hvalue.type_eq

theorem moving_applyHook (entry : HookEntry) : Moving (applyHook entry) :=
  (obeys_ofRegistry _).bind fun _ => obeys_addHook _ _ _ _ _

theorem moving_applyKey (entry : KeyEntry) : Moving (applyKey entry) := by
  refine (obeys_ofRegistry _).bind fun scope => (obeys_ofRegistry _).bind ?_
  intro mode
  refine (obeys_readKeys _).bind ?_
  intro keys
  split
  · exact (obeys_readKeys _).bind fun keys => obeys_mapKey _ _ _ _
  · exact obeys_throw _

theorem moving_applyConfig (config : Config) : Moving (applyConfig config) := by
  refine moving_failures fun act hact => ?_
  simp only [entryActs, List.mem_append, List.mem_map] at hact
  rcases hact with ((⟨⟨name, value⟩, -, rfl⟩ | ⟨entry, -, rfl⟩) | ⟨entry, -, rfl⟩) | ⟨line, -, rfl⟩
  · exact moving_applyOption name value
  · exact moving_applyHook entry
  · exact moving_applyKey entry
  · exact moving_execute {} line

end ModalEdit.Scene
