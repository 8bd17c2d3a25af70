import ModalEdit.Proofs.IterationVisits
import ModalEdit.Proofs.KeyReplay
import ModalEdit.Proofs.Layouts

/-!
# One selection after the other

Keys that type at the selections, or erase what they cover, come to the same in a draft and in a
draft once per selection (`iterated_keys_agree`). In a draft, one tracker holds all selections and
each key is done at all of them, the last one first. Once per selection, the tracker of the draft
holds one selection, all keys are done there, and the tracker of the passes and that of the context
follow. Either way it is the same pieces of the layout that change, and they change in the same way
(`perform_replayKeys_of_strokes`): the draft changes all of them at once, the passes one by one
(`perform_eachSelection`).

It takes listeners that do not fail. A failure ends the pass in which it comes, and with it the
iteration, while a key in a draft has done part of its work by then (`iterated_keys_stop_short`).
-/

namespace ModalEdit

open Act Text

/-! ## Keys as strokes -/

/-- The character that a key types in insert mode. -/
def Key.typed? (key : Key) : Option Char :=
  if !key.modifiers.isEmpty then none
  else match key.code with
    | .enter => some '\n'
    | .tab => some '\t'
    | .char c => some c
    | _ => none

/-- The key that enters insert mode on a side of the selections. -/
def Key.entering : InsertPosition → Key
  | .before => .ofChar 'i'
  | .after => .ofChar 'a'

/-- **`Strokes keys strokes`** — from normal mode and back, the keys do the strokes: they enter
insert mode, type a text and leave it, or they erase. -/
inductive Strokes : List Key → List Stroke → Prop
  | type (position : InsertPosition) {keys : List Key} {text : List Char} :
    keys.map Key.typed? = text.map some →
      Strokes (.entering position :: (keys ++ [.ofCode .escape])) (text.map (.typing position))
  | erase : Strokes [.ofChar 'd'] [.cut]

theorem Key.typed?_ofPlain (c : Char) : (Key.ofPlain c).typed? = some c := by
  unfold Key.ofPlain
  split
  next h => exact congrArg some h.symm
  next =>
    split
    next h => exact congrArg some h.symm
    next => rfl

/-- Every text can be typed. -/
theorem strokes_ofPlain (position : InsertPosition) (text : List Char) :
    Strokes (.entering position :: (text.map Key.ofPlain ++ [.ofCode .escape]))
      (text.map (.typing position)) := by
  refine .type position ?_
  rw [List.map_map]
  exact List.map_congr_left fun c _ => Key.typed?_ofPlain c

namespace Stroke

/-- What becomes of a piece under strokes, one after the other. -/
def changeAll (strokes : List Stroke) (p : Piece) : Piece :=
  strokes.foldl (fun p stroke => stroke.change p) p

end Stroke

namespace Scene

/-! ## Scenes where keys do what they say -/

/-- **`s.Plain`** — keys edit, and in the tables that the context sees no hook listens to them and
none of them is mapped. -/
structure Plain (s : Scene) : Prop where
  stored : s.context.document < s.editor.store.length
  input : s.editor.input = .basic
  unhooked : ∀ tables ∈ s.visibleTables,
    tables.hooks.hooks "NormalKey" = [] ∧ tables.hooks.hooks "InsertKey" = []
  unmapped : ∀ tables ∈ s.visibleTables, ∀ mode key, tables.keymaps.get? mode key = none

theorem Plain.of_empty {s : Scene} (hstored : s.context.document < s.editor.store.length)
    (hinput : s.editor.input = .basic) (hempty : ∀ tables ∈ s.visibleTables, tables = {}) :
    s.Plain := by
  refine ⟨hstored, hinput, fun tables h => ?_, fun tables h => ?_⟩
  · rw [hempty tables h]
    exact ⟨rfl, rfl⟩
  · rw [hempty tables h]
    exact fun _ _ => rfl

section Keys

variable {b t : Scene} {d : Document} {r : Registers} {mode : KeymapMode}
  {position : InsertPosition} {deeper : Nat}

theorem Plain.keyed (h : b.Plain) (hd : d.scopes = b.document.scopes) :
    (b.keyed d r mode position deeper).Plain := by
  have htables : (b.keyed d r mode position deeper).visibleTables = b.visibleTables :=
    visibleTables_keyed_of_scopes h.stored hd
  refine ⟨?_, h.input, htables ▸ h.unhooked, htables ▸ h.unmapped⟩
  simpa [Scene.keyed, Editor.setDocument] using h.stored

/-- In basic editing, a key that is not mapped. -/
theorem perform_press_of_unmapped {run : Runner} {key : Key} (hinput : t.editor.input = .basic)
    (hkey : ∀ tables ∈ t.visibleTables, tables.keymaps.get? t.context.mode key = none) :
    (press run key).perform t = (basicKey run key).perform t := by
  have hmapping : t.mapping? key = none :=
    List.findSome?_eq_none_iff.mpr fun tables htables => hkey tables (List.mem_reverse.mp htables)
  rw [press, perform_bind_ok (perform_get t), hmapping]
  dsimp only
  rw [pressUnmapped, perform_bind_ok (perform_get t), hinput]

theorem Plain.perform_press (h : t.Plain) (key : Key) :
    (press execute key).perform t =
      if t.context.mode = .insert then (insertKey key).perform t else (normalKey key).perform t := by
  rw [perform_press_of_unmapped h.input fun tables htables => h.unmapped tables htables _ _,
    basicKey, perform_bind_ok (perform_get t)]
  split
  · exact perform_bind_ok (perform_runHook_of_none fun tables htables => (h.unhooked tables htables).2)
  · exact perform_bind_ok (perform_runHook_of_none fun tables htables => (h.unhooked tables htables).1)

end Keys

/-! ## Keys that do strokes -/

/-- **`s.Shows L view`** — the document of the context is laid out so, and its tracker shows that
much of it. -/
structure Shows (s : Scene) (L : Layout) (view : Layout.View) : Prop where
  lays : s.document.Lays L
  valid : view.Valid L.pieces.length
  shown : s.document.tracked? s.context.tracker = some (L.shown view)

/-- **`b.Reaches L view f d`** — typing has led from the document of `b` to `d`, and has changed the
pieces that the view shows. -/
structure Reaches (b : Scene) (L : Layout) (view : Layout.View) (f : Piece → Piece) (d : Document) :
    Prop where
  typed : b.document.Typed d
  relays : b.document.Relays L d (L.through view f)

section Reaching

variable {b : Scene} {L : Layout} {view : Layout.View} {f : Piece → Piece} {d : Document}
  {r : Registers} {position : InsertPosition}

theorem Shows.start (hb : b.Shows L view) : b.Reaches L view id b.document := by
  refine ⟨.refl, ?_⟩
  rw [Layout.through_id]
  exact .refl hb.lays

/-- One stroke at every selection of the context. -/
theorem Reaches.stroke (hb : b.Shows L view) (h : b.Reaches L view f d) (stroke : Stroke) :
    (d.editAll b.context.tracker fun _ => stroke.edit).1 = .ok () ∧
      b.Reaches L view (stroke.change ∘ f)
        (d.editAll b.context.tracker fun _ => stroke.edit).2 := by
  have hvalid : view.Valid (L.through view f).pieces.length := h.relays.length ▸ hb.valid
  have hshown := h.relays.follows _ view hb.valid hb.shown
  obtain ⟨hok, hrelays⟩ := Document.relays_editAll h.relays.lays stroke hvalid hshown
  have htypes : d.Types (d.editAll b.context.tracker fun _ => stroke.edit) := by
    refine Document.types_editEach _ (fun _ s d => ?_) d _
    cases stroke
    · exact d.types_insertText _ _
    · exact d.types_insertText _ _
    · exact d.types_erase _ _
  rw [Layout.through_through] at hrelays
  exact ⟨hok, h.typed.trans htypes.typed, h.relays.trans hrelays⟩

theorem insertKey_of_typed? {key : Key} {c : Char} (h : key.typed? = some c) :
    insertKey key = typeText (String.singleton c) := by
  unfold Key.typed? at h
  unfold insertKey
  split at h
  · cases h
  next hbare =>
    rw [if_neg hbare]
    split at h <;> cases h <;> simp_all

/-- A key types its character. -/
theorem Reaches.press_typed (hb : b.Shows L view) (hplain : b.Plain) (h : b.Reaches L view f d)
    {key : Key} {c : Char} (hkey : key.typed? = some c) :
    ∃ d', (press execute key).perform (b.keyed d r .insert position 1) =
        (.ok (), b.keyed d' r .insert position 1) ∧
      b.Reaches L view ((Stroke.typing position c).change ∘ f) d' := by
  obtain ⟨hok, hreaches⟩ := h.stroke hb (.typing position c)
  refine ⟨_, ?_, hreaches⟩
  have hmode : (b.keyed d r .insert position 1).context.mode = .insert := rfl
  rw [(hplain.keyed h.typed.scopes_eq).perform_press, if_pos hmode, insertKey_of_typed? hkey,
    typeText, perform_bind_ok (perform_get _), perform_insert, perform_edit_keyed hplain.stored]
  show (((d.insertAll b.context.tracker [String.singleton c] position).1).mapError _,
    b.keyed (d.insertAll b.context.tracker [String.singleton c] position).2 r .insert position 1) = _
  rw [Document.insertAll_singleton, hok]
  rfl

theorem pressAll_cons (run : Runner) (key : Key) (keys : List Key) :
    pressAll run (key :: keys) = press run key >>= fun _ => pressAll run keys := rfl

theorem perform_pressAll_append {run : Runner} {keys more : List Key} {s t : Scene}
    (h : (pressAll run keys).perform s = (.ok (), t)) :
    (pressAll run (keys ++ more)).perform s = (pressAll run more).perform t := by
  induction keys generalizing s with
  | nil =>
    obtain rfl := (Prod.mk.inj h).2
    rfl
  | cons key keys ih =>
    obtain ⟨_, u, hkey, hkeys⟩ := perform_bind_eq_ok.mp h
    rw [List.cons_append, pressAll_cons, perform_bind_ok hkey]
    exact ih hkeys

/-- Keys type a text. -/
theorem Reaches.pressAll_typed (hb : b.Shows L view) (hplain : b.Plain) (h : b.Reaches L view f d)
    {keys : List Key} {text : List Char} (hkeys : keys.map Key.typed? = text.map some) :
    ∃ d', (pressAll execute keys).perform (b.keyed d r .insert position 1) =
        (.ok (), b.keyed d' r .insert position 1) ∧
      b.Reaches L view (Stroke.changeAll (text.map (Stroke.typing position)) ∘ f) d' := by
  induction keys generalizing text d f with
  | nil =>
    obtain rfl := List.map_eq_nil_iff.mp hkeys.symm
    exact ⟨d, rfl, h⟩
  | cons key keys ih =>
    obtain ⟨c, text, rfl, hkey, hrest⟩ := List.map_eq_cons_iff.mp hkeys.symm
    obtain ⟨d', hpress, hd'⟩ := h.press_typed hb hplain hkey.symm
    obtain ⟨d'', hpresses, hd''⟩ := ih hd' hrest.symm
    exact ⟨d'', by rw [pressAll_cons, perform_bind_ok hpress, hpresses], hd''⟩

theorem Plain.press_entering (hplain : b.Plain) (hd : d.scopes = b.document.scopes)
    (side : InsertPosition) :
    (press execute (.entering side)).perform (b.keyed d r .normal position 0) =
      (.ok (), b.keyed d r .insert side 1) := by
  have hmode : (b.keyed d r .normal position 0).context.mode ≠ .insert := nofun
  rw [(hplain.keyed hd).perform_press, if_neg hmode]
  cases side <;> rfl

theorem Plain.press_escape (hplain : b.Plain) (hediting : 0 < b.context.editionLevel)
    (hd : d.scopes = b.document.scopes) :
    (press execute (.ofCode .escape)).perform (b.keyed d r .insert position 1) =
      (.ok (), b.keyed d r .normal position 0) := by
  have hmode : (b.keyed d r .insert position 1).context.mode = .insert := rfl
  have hkey : insertKey (.ofCode .escape) = leaveInsertMode := rfl
  have hescaping : (b.keyed d r .insert position 1).escaping = b.keyed d r .insert position 1 :=
    if_pos rfl
  rw [(hplain.keyed hd).perform_press, if_pos hmode, hkey, perform_leaveInsertMode, hescaping]
  have hended : (b.keyed d r .normal position 1).checked.ended = b.keyed d r .normal position 0 :=
    ended_keyed (Nat.add_pos_left hediting 0)
  exact congrArg (Prod.mk _) hended

theorem Reaches.press_erase (hb : b.Shows L view) (hplain : b.Plain)
    (hediting : 0 < b.context.editionLevel) (h : b.Reaches L view f d) (r : Registers)
    (position : InsertPosition) :
    ∃ d' r', (press execute (.ofChar 'd')).perform (b.keyed d r .normal position 0) =
        (.ok (), b.keyed d' r' .normal position 0) ∧
      b.Reaches L view (Stroke.cut.change ∘ f) d' := by
  obtain ⟨hok, hreaches⟩ := h.stroke hb .cut
  rw [← d.eraseAll_eq] at hok hreaches
  have hmode : (b.keyed d r .normal position 0).context.mode ≠ .insert := nofun
  have hkey : normalKey (.ofChar 'd') = (do yankSelections; inEdition erase) := rfl
  let r' := r.put Registers.yank (b.keyed d r .normal position 0).selectedTexts
  have hedit : erase.perform (b.keyed d r' .normal position 0).begun =
      (.ok (), b.keyed (d.eraseAll b.context.tracker).2 r' .normal position 1) := by
    have hbegun : (b.keyed d r' .normal position 0).begun = b.keyed d r' .normal position 1 := rfl
    rw [hbegun, perform_erase, perform_edit_keyed hplain.stored]
    exact Prod.ext (congrArg (Except.mapError _) hok) rfl
  refine ⟨_, r', ?_, hreaches⟩
  rw [(hplain.keyed h.typed.scopes_eq).perform_press, if_neg hmode, hkey,
    perform_bind_ok (perform_yankSelections _)]
  show (inEdition erase).perform (b.keyed d r' .normal position 0) = _
  rw [perform_inEdition, hedit, ended_keyed (Nat.add_pos_left hediting 0)]

/-- **Keys do strokes** — from normal mode and back, in an open edition. -/
theorem Reaches.pressAll (hb : b.Shows L view) (hplain : b.Plain)
    (hediting : 0 < b.context.editionLevel) (h : b.Reaches L view f d) {keys : List Key}
    {strokes : List Stroke} (hkeys : Strokes keys strokes) (r : Registers)
    (position : InsertPosition) :
    ∃ d' r' position',
      (Scene.pressAll execute keys).perform (b.keyed d r .normal position 0) =
        (.ok (), b.keyed d' r' .normal position' 0) ∧
      b.Reaches L view (Stroke.changeAll strokes ∘ f) d' := by
  cases hkeys with
  | type side htyped =>
    obtain ⟨d', hpressed, hd'⟩ := h.pressAll_typed (r := r) hb hplain htyped
    refine ⟨d', r, side, ?_, hd'⟩
    rw [pressAll_cons, perform_bind_ok (hplain.press_entering h.typed.scopes_eq side),
      perform_pressAll_append hpressed, pressAll_cons,
      perform_bind_ok (hplain.press_escape hediting hd'.typed.scopes_eq)]
    rfl
  | erase =>
    obtain ⟨d', r', hpressed, hd'⟩ := h.press_erase hb hplain hediting r position
    exact ⟨d', r', position, by rw [pressAll_cons, perform_bind_ok hpressed]; rfl, hd'⟩

end Reaching

/-! ## A replay -/

section Replay

variable {s t : Scene} {L : Layout} {view : Layout.View} {keys : List Key} {strokes : List Stroke}

/-- **A replay of keys that do strokes** — the pieces that the tracker of the context shows change,
and every tracker follows. -/
theorem perform_replayKeys_of_strokes (hs : s.Shows L view) (hplain : s.Plain)
    (hmode : s.context.mode = .normal) (hkeys : Strokes keys strokes) :
    ∃ d r position,
      (replayKeys execute keys).perform s = (.ok (), s.keyed d r .normal position 0) ∧
      d.scopes = s.document.scopes ∧
      s.document.Relays L d (L.through view (Stroke.changeAll strokes)) := by
  have hbegun : s.begun.Shows L view := ⟨hs.lays, hs.valid, hs.shown⟩
  have hplain' : s.begun.Plain := ⟨hplain.stored, hplain.input, hplain.unhooked, hplain.unmapped⟩
  obtain ⟨d, r, position, hpressed, hd⟩ := hbegun.start.pressAll hbegun hplain' (Nat.succ_pos _)
    hkeys s.editor.registers s.context.insertPosition
  have hself : s.begun.keyed s.begun.document s.editor.registers s.context.mode
      s.context.insertPosition 0 = s.begun := keyed_self hplain'.stored
  rw [hmode] at hself
  rw [hself] at hpressed
  have hclosing : (s.begun.keyed d r .normal position 0).closing .normal =
      s.begun.keyed d r .normal position 0 := if_neg fun hinsert => nomatch hinsert.2
  rw [perform_replayKeys, hpressed]
  dsimp only
  rw [hmode, hclosing, ended_begun hplain.stored]
  refine ⟨_, _, position, rfl, ?_, ?_⟩
  · split <;> exact hd.typed.scopes_eq
  · split
    · exact hd.relays.trans (hd.relays.lays.aside rfl rfl)
    · exact hd.relays

end Replay

/-! ## Passes -/

/-- **`s.Stage document trackers main L`** — between two passes: keys do what they say in normal
mode, the document is laid out so, and the trackers, none of which is that of the context, show all
of it. -/
structure Stage (document : Nat) (trackers : List Nat) (main : Nat) (L : Layout) (s : Scene) :
    Prop where
  plain : s.Plain
  mode : s.context.mode = .normal
  on : s.context.document = document
  lays : s.document.Lays L
  main_lt : main < L.pieces.length
  tracked : (s.document.tracked? s.context.tracker).isSome
  apart : ∀ tracker ∈ trackers, tracker ≠ s.context.tracker
  shown : ∀ tracker ∈ trackers, s.document.tracked? tracker = some (L.shown (.all main))

namespace Stage

variable {document main : Nat} {trackers : List Nat} {L : Layout} {s : Scene} {view : Layout.View}
  {keys : List Key} {strokes : List Stroke}

/-- A replay leads from stage to stage. -/
theorem replay (hs : s.Stage document trackers main L) (hview : view.Valid L.pieces.length)
    (hshown : s.document.tracked? s.context.tracker = some (L.shown view))
    (hkeys : Strokes keys strokes) :
    ∃ t, (replayKeys execute keys).perform s = (.ok (), t) ∧
      t.Stage document trackers main (L.through view (Stroke.changeAll strokes)) := by
  obtain ⟨d, r, position, hreplay, hscopes, hrelays⟩ :=
    perform_replayKeys_of_strokes ⟨hs.lays, hview, hshown⟩ hs.plain hs.mode hkeys
  have hdocument : (s.keyed d r .normal position 0).document = d := document_keyed hs.plain.stored
  refine ⟨_, hreplay, {
    plain := hs.plain.keyed hscopes
    mode := rfl
    on := hs.on
    lays := by rw [hdocument]; exact hrelays.lays
    main_lt := hrelays.length ▸ hs.main_lt
    tracked := ?_
    apart := hs.apart
    shown := fun tracker htracker => ?_ }⟩
  · rw [hdocument]
    exact Option.isSome_of_eq_some (hrelays.follows _ view hview hshown)
  · rw [hdocument]
    exact hrelays.follows tracker (.all main) hs.main_lt (hs.shown tracker htracker)

/-- Another document leads from stage to stage if it is laid out, too. -/
theorem setDocument {trackers' : List Nat} {L' : Layout} (hs : s.Stage document trackers main L)
    (d : Document) (hscopes : d.scopes = s.document.scopes) (hlays : d.Lays L')
    (hmain : main < L'.pieces.length) (htracked : (d.tracked? s.context.tracker).isSome)
    (hothers : ∀ tracker ∈ trackers',
      tracker ≠ s.context.tracker ∧ d.tracked? tracker = some (L'.shown (.all main))) :
    let t : Scene := { s with editor := s.editor.setDocument s.context.document d }
    t.Stage document trackers' main L' ∧ t.document = d := by
  intro t
  have hdocument : t.document = d := by
    rw [Scene.document, Editor.document_setDocument, if_pos ⟨rfl, hs.plain.stored⟩]
  have htables : t.visibleTables = s.visibleTables := by
    rw [visibleTables, hdocument, hscopes]
    rfl
  refine ⟨{
    plain := ⟨?_, hs.plain.input, htables ▸ hs.plain.unhooked, htables ▸ hs.plain.unmapped⟩
    mode := hs.mode
    on := hs.on
    lays := hdocument ▸ hlays
    main_lt := hmain
    tracked := hdocument ▸ htracked
    apart := fun tracker htracker => (hothers tracker htracker).1
    shown := fun tracker htracker => hdocument ▸ (hothers tracker htracker).2 }, hdocument⟩
  simpa [t, Editor.setDocument] using hs.plain.stored

/-- The context is given one selection of the layout. -/
theorem select (hs : s.Stage document trackers main L) {index : Nat} {x : Selection}
    (hx : L.selections[index]? = some x) :
    ∃ t, (setSelections (.single x)).perform s = (.ok (), t) ∧
      t.Stage document trackers main L ∧
      t.document.tracked? t.context.tracker = some (L.shown (.one index)) := by
  have hwithin : (L.shown (.all main)).Within (IsPosition s.document.text) :=
    hs.lays.text ▸ L.within_shown main
  have hclamp : x.map (clamp s.document.text) = x :=
    hwithin.map_clamp (List.mem_of_getElem? hx)
  have hsingle : L.shown (.one index) = .single x := by
    rw [Layout.shown, List.getD_eq_getElem?_getD, hx]
    rfl
  have hown := Document.tracked?_giving hs.tracked (.single x)
  obtain ⟨hstage, hdocument⟩ := hs.setDocument (s.document.giving s.context.tracker (.single x)) rfl
    (hs.lays.giving s.context.tracker x) hs.main_lt
    (Option.isSome_of_eq_some hown) fun tracker htracker => ⟨hs.apart tracker htracker,
      (Document.tracked?_giving_of_ne (hs.apart tracker htracker) _).trans
        (hs.shown tracker htracker)⟩
  refine ⟨_, by rw [perform_setSelections_single, hclamp], hstage, ?_⟩
  rw [hdocument, hsingle]
  exact hown

/-- A tracker is added that shows all. -/
theorem track (hs : s.Stage document trackers main L)
    (hissued : ∀ l ∈ s.document.listeners, l.id < s.document.nextListener) :
    (s.tracking document (L.shown (.all main))).Stage document
      (s.document.nextListener :: trackers) main L := by
  have hview : Layout.View.Valid L.pieces.length (.all main) := hs.main_lt
  obtain ⟨hrelays, hnew⟩ := hs.lays.track hissued hview
  have hlt := Document.lt_nextListener_of_tracked? hissued hs.tracked
  obtain rfl := hs.on
  refine (hs.setDocument (s.document.track (L.shown (.all main))).2 rfl hrelays.lays hs.main_lt ?_
    (List.forall_mem_cons.mpr ⟨⟨hlt.ne', hnew⟩, fun tracker htracker =>
      ⟨hs.apart tracker htracker, hrelays.follows tracker _ hview (hs.shown tracker htracker)⟩⟩)).1
  rw [Document.track, Document.tracked?_subscribe hlt.ne]
  exact hs.tracked

/-- A tracker is dropped. -/
theorem untrack {tracker : Nat} (hs : s.Stage document (tracker :: trackers) main L)
    (htracker : tracker ∉ trackers) :
    { s with editor := s.editor.modifyDocument document (·.unsubscribe tracker) }.Stage document
      trackers main L := by
  obtain ⟨hne, hothers⟩ := List.forall_mem_cons.mp hs.apart
  obtain rfl := hs.on
  have hlays : (s.document.unsubscribe tracker).Lays L :=
    ⟨hs.lays.text, hs.lays.proper, fun l hl => hs.lays.obliging l (List.mem_of_mem_filter hl)⟩
  refine (hs.setDocument (s.document.unsubscribe tracker) rfl hlays hs.main_lt ?_
    fun other hother => ⟨hothers other hother, ?_⟩).1
  · rw [Document.tracked?_unsubscribe hne.symm]
    exact hs.tracked
  · have hapart : other ≠ tracker := fun h => htracker (h ▸ hother)
    rw [Document.tracked?_unsubscribe hapart]
    exact hs.shown other (List.mem_cons_of_mem _ hother)

/-- **The passes** — by induction on the number of passes to come: each of them changes the next
piece. -/
theorem perform_eachSelection {tracker first count : Nat}
    (hs : s.Stage document trackers main (L.below first (Stroke.changeAll strokes)))
    (htracker : tracker ∈ trackers) (hkeys : Strokes keys strokes)
    (hcount : first + count = L.pieces.length) :
    ∃ t, (eachSelection document tracker (replayKeys execute keys)
        (List.range' first count)).perform s = (.ok (), t) ∧
      t.Stage document trackers main (L.through (.all main) (Stroke.changeAll strokes)) := by
  induction count generalizing first s with
  | zero =>
    rw [Nat.add_zero] at hcount
    rw [hcount, L.below_length] at hs
    exact ⟨s, rfl, hs⟩
  | succ count ih =>
    have hlength : (L.below first (Stroke.changeAll strokes)).pieces.length = L.pieces.length := by
      simp [Layout.below]
    have hfirst : first < (L.below first (Stroke.changeAll strokes)).selections.length := by
      rw [Layout.length_selections, hlength]
      omega
    have hx := List.getElem?_eq_getElem hfirst
    have hget : ((s.editor.document document).selections tracker).get? first =
        some (L.below first (Stroke.changeAll strokes)).selections[first] := by
      have hdocument : s.editor.document document = s.document := by rw [Scene.document, hs.on]
      rw [hdocument, Document.selections_of_tracked? (hs.shown tracker htracker)]
      exact hx
    obtain ⟨start, hselect, hstart, hshown⟩ := hs.select hx
    obtain ⟨stop, hreplay, hstop⟩ := hstart.replay
      (Layout.length_selections _ ▸ hfirst) hshown hkeys
    have hnext : (L.below first (Stroke.changeAll strokes)).through (.one first)
        (Stroke.changeAll strokes) = L.below (first + 1) (Stroke.changeAll strokes) :=
      L.below_modify first _
    rw [hnext] at hstop
    obtain ⟨t, hrest, ht⟩ := ih hstop (by omega)
    refine ⟨t, ?_, ht⟩
    rw [List.range'_succ, eachSelection, perform_bind_ok (perform_get s), hget]
    dsimp only
    rw [perform_bind_ok hselect, perform_bind_ok hreplay]
    exact hrest

/-- What a draft that ends at a stage leaves behind. -/
theorem perform_inDraft {t : Scene} {act : Act Scene Unit}
    (hact : act.perform s.drafted = (.ok (), t))
    (ht : t.Stage s.context.document trackers main L) (hown : s.context.tracker ∈ trackers) :
    let done := (inDraft act).perform s
    done.1 = .ok () ∧ done.2.document.text = L.text ∧
      done.2.selections = L.shown (.all main) := by
  have hdocument : ((inDraft act).perform s).2.document = t.document.unsubscribe t.context.tracker := by
    rw [Scene.perform_inDraft, hact]
    show (t.editor.release t.context).document s.context.document = _
    rw [Editor.release, Editor.modifyDocument, Editor.document_setDocument,
      if_pos ⟨ht.on.symm, ht.plain.stored⟩]
    rfl
  have hcontext : ((inDraft act).perform s).2.context = s.context := by
    rw [Scene.perform_inDraft]
  refine ⟨by rw [Scene.perform_inDraft, hact], by rw [hdocument]; exact ht.lays.text, ?_⟩
  have hselections : ((inDraft act).perform s).2.selections =
      ((inDraft act).perform s).2.document.selections ((inDraft act).perform s).2.context.tracker := rfl
  rw [hselections, hcontext, hdocument]
  refine Document.selections_of_tracked? ?_
  rw [Document.tracked?_unsubscribe (ht.apart _ hown)]
  exact ht.shown _ hown

end Stage

/-! ## Both ways -/

section Drafts

variable {s : Scene} {keys : List Key} {strokes : List Stroke}

/-- A draft has no window, so it sees no other tables. -/
theorem Plain.drafted (h : s.Plain) : s.drafted.Plain := by
  have htables : ∀ tables ∈ s.drafted.visibleTables, tables ∈ s.visibleTables := by
    have hdocument : s.drafted.document = (s.document.track s.selections).2 :=
      document_drafted h.stored
    rw [visibleTables, hdocument]
    intro tables hmem
    exact (List.mem_append.mp hmem).elim (List.mem_append_left _) (absurd · List.not_mem_nil)
  have hstored : s.drafted.context.document < s.drafted.editor.store.length := by
    simpa [Scene.drafted, Editor.draft, Editor.newContext, Editor.setDocument] using h.stored
  exact ⟨hstored, h.input, fun tables hmem => h.unhooked tables (htables tables hmem),
    fun tables hmem => h.unmapped tables (htables tables hmem)⟩

theorem tracked?_context (h : (s.document.tracked? s.context.tracker).isSome) :
    s.document.tracked? s.context.tracker = some s.selections := by
  obtain ⟨held, hheld⟩ := Option.isSome_iff_exists.mp h
  rw [hheld, Scene.selections, Editor.selections]
  exact congrArg some (Document.selections_of_tracked? hheld).symm

/-- The selections of a context lay out its document. -/
theorem Sound.exists_lays (hs : s.Sound) (hobliging : s.document.Obliging) :
    ∃ L : Layout, s.document.Lays L ∧ s.selections = L.shown (.all s.selections.mainIndex) ∧
      s.selections.mainIndex < L.pieces.length := by
  obtain ⟨L, htext, hselections, hproper⟩ := Layout.exists_layout hs.wellFormed hs.within
  refine ⟨L, ⟨htext.symm, hproper, hobliging⟩, ?_, ?_⟩
  · rw [Layout.shown, hselections]
  · have hmain := hs.wellFormed.main_lt
    rwa [SelectionList.length, ← hselections, Layout.length_selections] at hmain

/-- A draft of a context whose selections lay out the document is at a stage. -/
theorem Sound.exists_stage (hs : s.Sound) (hplain : s.Plain) (hobliging : s.document.Obliging)
    (htracked : (s.document.tracked? s.context.tracker).isSome) :
    ∃ (L : Layout) (main : Nat), s.selections = L.shown (.all main) ∧
      s.drafted.Stage s.context.document [s.context.tracker] main L ∧
      s.drafted.document.tracked? s.drafted.context.tracker = some (L.shown (.all main)) ∧
      ∀ l ∈ s.drafted.document.listeners, l.id < s.drafted.document.nextListener := by
  obtain ⟨L, hlays, hshown, hmain⟩ := hs.exists_lays hobliging
  have hview : Layout.View.Valid L.pieces.length (.all s.selections.mainIndex) := hmain
  obtain ⟨hrelays, hnew⟩ := hlays.track hs.issued hview
  rw [← hshown] at hrelays hnew
  have hdocument : s.drafted.document = (s.document.track s.selections).2 :=
    document_drafted hs.stored
  have hcontext : s.drafted.context.tracker = s.document.nextListener := rfl
  have hlt := Document.lt_nextListener_of_tracked? hs.issued htracked
  have hfollows := hrelays.follows s.context.tracker _ hview (hshown ▸ tracked?_context htracked)
  have hstage : s.drafted.Stage s.context.document [s.context.tracker] s.selections.mainIndex L := {
    plain := hplain.drafted
    mode := rfl
    on := rfl
    lays := by rw [hdocument]; exact hrelays.lays
    main_lt := hview
    tracked := by rw [hdocument, hcontext, hnew]; rfl
    apart := by rw [hcontext]; simpa using hlt.ne
    shown := by simpa [hdocument] using hfollows }
  refine ⟨L, s.selections.mainIndex, hshown, hstage, ?_, ?_⟩
  · rw [hdocument, hcontext, hnew, ← hshown]
  · rw [hdocument]
    exact Document.issued_track hs.issued s.selections

section Routes

variable {L : Layout} {main : Nat}

/-- **All at once** — the keys are replayed at all selections. -/
theorem Stage.perform_once (hs : s.drafted.Stage s.context.document [s.context.tracker] main L)
    (hshown : s.drafted.document.tracked? s.drafted.context.tracker = some (L.shown (.all main)))
    (hkeys : Strokes keys strokes) :
    let done := (inTarget { draft := true } (replayKeys execute keys)).perform s
    let L' := L.through (.all main) (Stroke.changeAll strokes)
    done.1 = .ok () ∧ done.2.document.text = L'.text ∧
      done.2.selections = L'.shown (.all main) := by
  have hview : Layout.View.Valid L.pieces.length (.all main) := hs.main_lt
  have hroute : inTarget { draft := true } (replayKeys execute keys) =
      inDraft (replayKeys execute keys) := rfl
  obtain ⟨t, hreplay, ht⟩ := hs.replay hview hshown hkeys
  rw [hroute]
  exact Stage.perform_inDraft hreplay ht (List.mem_singleton_self _)

/-- **One by one** — the keys are replayed at one selection after the other. -/
theorem Stage.perform_each (hs : s.drafted.Stage s.context.document [s.context.tracker] main L)
    (hselections : s.selections = L.shown (.all main))
    (hissued : ∀ l ∈ s.drafted.document.listeners, l.id < s.drafted.document.nextListener)
    (hkeys : Strokes keys strokes) :
    let done := (inTarget { draft := true, itersel := true } (replayKeys execute keys)).perform s
    let L' := L.through (.all main) (Stroke.changeAll strokes)
    done.1 = .ok () ∧ done.2.document.text = L'.text ∧
      done.2.selections = L'.shown (.all main) := by
  have hlength : s.selections.length = L.pieces.length := by
    rw [hselections]
    exact L.length_selections
  let passes : Act Scene Unit :=
    withTracker s.context.document s.selections fun tracker =>
      eachSelection s.context.document tracker (replayKeys execute keys)
        (List.range s.selections.length)
  have hroute : (inTarget { draft := true, itersel := true } (replayKeys execute keys)).perform s =
      (inDraft passes).perform s := by
    rw [inTarget]
    rfl
  have htracking := hs.track hissued
  rw [← hselections] at htracking
  rw [← L.below_zero (Stroke.changeAll strokes)] at htracking
  obtain ⟨t, hpasses, ht⟩ := htracking.perform_eachSelection List.mem_cons_self hkeys
    (Nat.zero_add _)
  have hapart : s.drafted.document.nextListener ∉ [s.context.tracker] := by
    have hown := hs.shown s.context.tracker (List.mem_singleton_self _)
    have hlt := Document.lt_nextListener_of_tracked? hissued (Option.isSome_of_eq_some hown)
    simpa using hlt.ne'
  have hdone : passes.perform s.drafted = (.ok (), { t with
      editor := t.editor.modifyDocument s.context.document
        (·.unsubscribe s.drafted.document.nextListener) }) := by
    have hdocument : s.drafted.editor.document s.context.document = s.drafted.document := rfl
    rw [perform_withTracker, List.range_eq_range', hlength, hdocument]
    dsimp only
    rw [hpasses]
  rw [hroute]
  exact Stage.perform_inDraft hdone (ht.untrack hapart) (List.mem_singleton_self _)

end Routes

/-- Both ways lead to the layout in which all pieces have changed. -/
theorem Sound.exists_layout (hs : s.Sound) (hplain : s.Plain) (hobliging : s.document.Obliging)
    (htracked : (s.document.tracked? s.context.tracker).isSome) (hkeys : Strokes keys strokes) :
    ∃ (L : Layout) (main : Nat), ∀ itersel,
      let done := (inTarget { draft := true, itersel } (replayKeys execute keys)).perform s
      done.1 = .ok () ∧ done.2.document.text = L.text ∧
        done.2.selections = L.shown (.all main) := by
  obtain ⟨L, main, hselections, hstage, hshown, hissued⟩ :=
    hs.exists_stage hplain hobliging htracked
  refine ⟨L.through (.all main) (Stroke.changeAll strokes), main, fun itersel => ?_⟩
  cases itersel with
  | false => exact hstage.perform_once hshown hkeys
  | true => exact hstage.perform_each hselections hissued hkeys

theorem perform_route_of_here {flags : ContextFlags} {body : Act Scene Unit}
    (hclient : flags.client = none) (htry : flags.tryClient = none)
    (hvalid : flags.validate = .ok ()) :
    (route flags body).perform s = (inTarget flags body).perform s := by
  have hrequest : s.requestedClient flags = none := by
    rw [requestedClient, hclient, htry]
    rfl
  have hborrow : (borrowClient flags).perform s = (.ok none, s) := by
    rw [perform_borrowClient, hrequest]
  rw [route, hvalid]
  exact perform_bind_ok hborrow

theorem perform_readKeys {texts : List String} {sequences : List (List Key)}
    (h : texts.mapM Key.readSequence = .ok sequences) :
    (texts.mapM readKeys : Act Scene (List (List Key))).perform s = (.ok sequences, s) := by
  induction texts generalizing sequences with
  | nil =>
    cases h
    rfl
  | cons text texts ih =>
    rw [List.mapM_cons] at h ⊢
    cases hfirst : Key.readSequence text with
    | error e => rw [hfirst] at h; cases h
    | ok keys =>
      rw [hfirst] at h
      cases hrest : texts.mapM Key.readSequence with
      | error e => rw [hrest] at h; cases h
      | ok more =>
        rw [hrest] at h
        cases h
        have hread : (readKeys text).perform s = (.ok keys, s) := by rw [readKeys, hfirst]; rfl
        rw [perform_bind_ok hread, perform_bind_ok (ih hrest)]
        rfl

/-- The command `exec` with the switches of a draft. -/
theorem perform_exec {texts : List String} {sequences : List (List Key)} (itersel : Bool)
    (h : texts.mapM Key.readSequence = .ok sequences) :
    (exec execute ⟨("draft", none) :: if itersel then [("itersel", none)] else [], texts⟩).perform s =
      (inTarget { draft := true, itersel } (replayKeys execute sequences.flatten)).perform s := by
  have hflags : (contextFlags
      ⟨("draft", none) :: if itersel then [("itersel", none)] else [], texts⟩).perform s =
      (.ok { draft := true, itersel }, s) := by
    cases itersel <;> rfl
  rw [exec, perform_bind_ok hflags, perform_bind_ok (perform_readKeys h)]
  exact perform_route_of_here rfl rfl (by cases itersel <;> rfl)

/-- **Once per selection is all at once** — keys that enter insert mode, type any text and leave it,
or that erase what is selected, leave the same text and the same selections in the context whether
they are sent to a draft or to a draft once per selection, if no hook listens to keys, no key is
mapped and no listener of the document fails. Both ways succeed. -/
theorem iterated_keys_agree (s : Scene) (hs : s.Sound) (hplain : s.Plain)
    (htracked : (s.document.tracked? s.context.tracker).isSome) (hobliging : s.document.Obliging)
    {texts : List String} {sequences : List (List Key)} {strokes : List Stroke}
    (hread : texts.mapM Key.readSequence = .ok sequences)
    (hkeys : Strokes sequences.flatten strokes) :
    let once := (exec execute ⟨[("draft", none)], texts⟩).perform s
    let each := (exec execute ⟨[("draft", none), ("itersel", none)], texts⟩).perform s
    once.1 = .ok () ∧ each.1 = .ok () ∧ each.2.document.text = once.2.document.text ∧
      each.2.selections = once.2.selections := by
  obtain ⟨L, main, hdone⟩ := hs.exists_layout hplain hobliging htracked hkeys
  obtain ⟨honce, honceText, honceSelections⟩ := hdone false
  obtain ⟨heach, heachText, heachSelections⟩ := hdone true
  rw [← perform_exec false hread] at honce honceText honceSelections
  rw [← perform_exec true hread] at heach heachText heachSelections
  exact ⟨honce, heach, heachText.trans honceText.symm, heachSelections.trans honceSelections.symm⟩

end Drafts

set_option maxRecDepth 100000 in
/-- Two lines are typed behind a selection and at a position on the next line. -/
theorem iterated_keys_agree_on_lines :
    let selected : SelectionList := ⟨[⟨⟨0, 0⟩, ⟨0, 1⟩, []⟩, .point ⟨1, 0⟩], 0⟩
    let d : Document :=
      { name := "notes", text := "ab\ncd\n".toList, nextListener := 1
        listeners := [⟨0, .tracker selected⟩] }
    let s : Scene := ⟨{ store := [d] }, { name := "main", document := 0, tracker := 0 }⟩
    let once := (exec execute ⟨[("draft", none)], ["a", "x\ny<esc>"]⟩).perform s
    let each := (exec execute ⟨[("draft", none), ("itersel", none)], ["a", "x\ny<esc>"]⟩).perform s
    s.Sound ∧ s.Plain ∧ s.document.Obliging ∧ once.1 = .ok () ∧ each.1 = .ok () ∧
      each.2.document.text = once.2.document.text ∧ each.2.selections = once.2.selections ∧
      once.2.document.text = "ax\nyb\nx\nycd\n".toList := by
  intro selected d s once each
  have hsound : s.Sound := by
    refine ⟨Nat.zero_lt_one, ?_, ⟨by decide, ?_⟩, ?_⟩
    · intro l hl
      rw [List.mem_singleton.mp hl]
      exact Nat.zero_lt_one
    · show List.Pairwise _ [(⟨⟨0, 0⟩, ⟨0, 1⟩, []⟩ : Selection), .point ⟨1, 0⟩]
      decide
    · intro x hx
      have hx : x ∈ [(⟨⟨0, 0⟩, ⟨0, 1⟩, []⟩ : Selection), .point ⟨1, 0⟩] := hx
      unfold IsPosition
      revert x
      decide
  have hplain : s.Plain := .of_empty Nat.zero_lt_one rfl fun tables h =>
    (List.mem_pair.mp h).elim id id
  have hobliging : s.document.Obliging := by
    intro l hl
    rw [List.mem_singleton.mp hl]
    exact Nat.zero_lt_two
  have hread : ["a", "x\ny<esc>"].mapM Key.readSequence =
      .ok [[.ofChar 'a'], [.ofChar 'x', .ofCode .enter, .ofChar 'y', .ofCode .escape]] := by cbv
  obtain ⟨honce, heach, htext, hselections⟩ := iterated_keys_agree s hsound hplain rfl hobliging hread
    (strokes_ofPlain .after ['x', '\n', 'y'])
  have hdone : ((exec execute ⟨[("draft", none)], ["a", "x\ny<esc>"]⟩).perform s).2.document.text =
      "ax\nyb\nx\nycd\n".toList := by cbv
  exact ⟨hsound, hplain, hobliging, honce, heach, htext, hselections, hdone⟩

set_option maxRecDepth 100000 in
/-- With a listener that fails, the draft has typed at the last selection by then, and the passes
have typed at the first one. -/
theorem iterated_keys_stop_short :
    let points : SelectionList := ⟨[.point ⟨0, 0⟩, .point ⟨0, 1⟩], 0⟩
    let d : Document :=
      { name := "notes", text := "ab\n".toList, nextListener := 2
        listeners := [⟨0, .tracker points⟩,
          ⟨1, .observer "guard" fun _ => { failure := some .empty }⟩] }
    let s : Scene := ⟨{ store := [d] }, { name := "main", document := 0, tracker := 0 }⟩
    let once := (exec execute ⟨[("draft", none)], ["ix<esc>"]⟩).perform s
    let each := (exec execute ⟨[("draft", none), ("itersel", none)], ["ix<esc>"]⟩).perform s
    s.Plain ∧ s.context.mode = .normal ∧ s.context.editionLevel = 0 ∧
      once.2.document.text = "axb\n".toList ∧ each.2.document.text = "xab\n".toList ∧
      each.2.selections ≠ once.2.selections := by
  intro points d s once each
  have hplain : s.Plain := .of_empty Nat.zero_lt_one rfl fun tables h =>
    (List.mem_pair.mp h).elim id id
  have honce : (fun t : Scene => (t.document.text, t.selections))
      ((exec execute ⟨[("draft", none)], ["ix<esc>"]⟩).perform s).2 =
      ("axb\n".toList, ⟨[.point ⟨0, 0⟩, .point ⟨0, 2⟩], 0⟩) := by cbv
  have heach : (fun t : Scene => (t.document.text, t.selections))
      ((exec execute ⟨[("draft", none), ("itersel", none)], ["ix<esc>"]⟩).perform s).2 =
      ("xab\n".toList, ⟨[.point ⟨0, 1⟩, .point ⟨0, 2⟩], 0⟩) := by cbv
  obtain ⟨honceText, honceSelections⟩ := Prod.mk.inj honce
  obtain ⟨heachText, heachSelections⟩ := Prod.mk.inj heach
  have hne : each.2.selections ≠ once.2.selections := by
    intro h
    have hsame := (heachSelections.symm.trans h).trans honceSelections
    exact absurd hsame (by decide)
  exact ⟨hplain, rfl, rfl, honceText, heachText, hne⟩

end Scene

end ModalEdit
