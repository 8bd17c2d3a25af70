import ModalEdit.Proofs.ErasedCharacters

/-!
# Keys that give the text back

Two pairs of keys take something away and bring it back. What `d` cuts at all selections, `P` or `p`
puts back there (`cut_then_paste`): cutting empties the pieces of the layout and leaves the points
where what they covered was, and the register has for each of them the text that is missing. What is
typed before a selection, or at a point, `<backspace>` erases (`typed_then_erased`): it stands at the
end of a gap, and that is where a character is erased.

Neither holds beyond that. `a` types behind what a selection covers and `<backspace>` erases before
it, so there are two places (`erased_before_typed_behind`); and a listener that fails leaves some of
the selections with one half of the pair (`cut_stops_short`).
-/

namespace ModalEdit

open Act Text

/-! ## Pieces there and back -/

namespace Piece

variable {p : Piece}

theorem text_inserted_emptied (side : InsertPosition) (p : Piece) :
    (p.emptied.inserted side p.body).text = p.text := by
  have hlead : p.emptied.lead side = p.gap := by
    cases side with
    | before => rfl
    | after => exact p.text_emptied
  have htrail : p.emptied.trail side = [] := by
    cases side with
    | before => rfl
    | after => rfl
  rw [text_inserted, hlead, htrail, List.append_nil]
  rfl

/-- A character that is typed before the selection is the last one of the gap. -/
theorem shortened_typing {side : InsertPosition} (c : Char) (h : side = .before ∨ p.body = []) :
    ((Stroke.typing side c).change p).shortened = p := by
  have hchange : (Stroke.typing side c).change p = { p with gap := p.gap ++ [c] } := by
    cases side with
    | before => rfl
    | after => exact if_pos (h.resolve_left nofun)
  rw [hchange, shortened, List.dropLast_concat]

end Piece

namespace Layout

variable {L : Layout} {i : Nat} {p : Piece}

theorem exists_selection_of_piece (h : L.pieces[i]? = some p) :
    ∃ before rest, L.text = before ++ p.text ++ rest ∧
      L.selections[i]? = some (p.selection before) := by
  obtain ⟨pieces, rest⟩ := L
  obtain ⟨hi, rfl⟩ := List.getElem?_eq_some_iff.mp h
  have hpieces : pieces.take i ++ pieces[i] :: pieces.drop (i + 1) = pieces := by
    rw [← List.drop_eq_getElem_cons hi, List.take_append_drop]
  have htext := text_split (pieces.take i) (pieces.drop (i + 1)) pieces[i] rest
  have hget := getElem?_selections_split (pieces.take i) (pieces.drop (i + 1)) pieces[i] rest
  rw [hpieces] at htext hget
  rw [List.length_take_of_le hi.le] at hget
  exact ⟨_, _, htext, hget⟩

/-- What the selections cover are the bodies. -/
theorem selectedTexts_of_piece {d : Document} {tracker main : Nat} (hlays : d.Lays L)
    (hshown : d.tracked? tracker = some (L.shown (.all main))) (h : L.pieces[i]? = some p) :
    (d.selectedTexts tracker)[i]? = some (String.ofList p.body) := by
  obtain ⟨before, rest, htext, hget⟩ := exists_selection_of_piece h
  have hcontent := (p.covers_selection before rest).content
  rw [← htext, ← hlays.text] at hcontent
  rw [Document.selectedTexts, Document.selections_of_tracked? hshown, List.getElem?_map]
  show Option.map _ L.selections[i]? = _
  rw [hget, Option.map_some, Document.content, hcontent]

theorem body_of_points (h : ∀ x ∈ L.selections, x.isPoint) : ∀ p ∈ L.pieces, p.body = [] := by
  intro p hp
  obtain ⟨i, hi⟩ := List.getElem?_of_mem hp
  obtain ⟨before, -, -, hget⟩ := exists_selection_of_piece hi
  have hpoint := h _ (List.mem_of_getElem? hget)
  rw [Piece.isPoint_selection] at hpoint
  exact of_decide_eq_true hpoint

/-- Typing and then shortening the gaps changes no piece. -/
theorem shortened_typing {side : InsertPosition} (c : Char) (main : Nat)
    (h : side = .before ∨ ∀ x ∈ L.selections, x.isPoint) :
    (L.through (.all main) (Stroke.typing side c).change).shortened = L := by
  have hpieces : L.pieces.map (Piece.shortened ∘ (Stroke.typing side c).change) = L.pieces := by
    refine (List.map_congr_left fun p hp => ?_).trans (List.map_id L.pieces)
    exact Piece.shortened_typing c (h.imp_right fun hpoints => body_of_points hpoints p hp)
  rw [through, shortened, List.map_map, hpieces]

/-- **The bodies put back into the gaps** — on either side, for the selections there are points. -/
theorem text_refilled (side : InsertPosition) {added : Nat → List Char}
    (h : ∀ i p, L.pieces[i]? = some p → added i = p.body) :
    (L.emptied.upTo L.emptied.pieces.length fun i => Piece.inserted side (added i)).text =
      L.text := by
  have hpieces : (L.emptied.pieces.mapIdx fun i => Piece.inserted side (added i)).map Piece.text =
      L.pieces.map Piece.text := by
    refine List.ext_getElem (by simp [emptied]) fun i hi hi' => ?_
    have hlt : i < L.pieces.length := by simpa using hi'
    have hbody : added i = L.pieces[i].body := h i _ (List.getElem?_eq_getElem hlt)
    simp [emptied, hbody, Piece.text_inserted_emptied]
  rw [upTo_length, text, text, List.flatMap_def, List.flatMap_def, hpieces]
  rfl

end Layout

/-- A character typed at all selections, and one erased before each of them. -/
theorem Document.typed_erased {d : Document} {L : Layout} {tracker main : Nat} (hlays : d.Lays L)
    (hmain : main < L.pieces.length) (hshown : d.tracked? tracker = some (L.shown (.all main)))
    {side : InsertPosition} (hside : side = .before ∨ ∀ x ∈ L.selections, x.isPoint) (c : Char) :
    let typed := d.insertAll tracker [String.singleton c] side
    let erased := typed.2.eraseBeforeAll tracker
    typed.1 = .ok () ∧ erased.1 = .ok () ∧ erased.2.text = d.text := by
  intro typed erased
  let L' := L.through (.all main) (Stroke.typing side c).change
  obtain ⟨htyped, hrelays⟩ : typed.1 = .ok () ∧ d.Relays L typed.2 L' := by
    show (d.insertAll _ _ _).1 = _ ∧ d.Relays L (d.insertAll _ _ _).2 _
    rw [insertAll_singleton]
    exact relays_editAll hlays _ hmain hshown
  have hpresents : typed.2.Presents tracker L' :=
    ⟨hrelays.lays, main, hrelays.length ▸ hmain, hrelays.follows _ (.all main) hmain hshown⟩
  -- the gaps are what they were, so no two selections have come to touch
  have hback : L'.shortened.joined = L := by
    rw [Layout.shortened_typing c main hside, hlays.proper.joined_eq]
  obtain ⟨herased, hleft⟩ := hpresents.eraseBeforeAll
  refine ⟨htyped, herased, ?_⟩
  rw [hback] at hleft
  exact hleft.lays.text.trans hlays.text.symm

/-! ## Keys in normal mode -/

/-- The key that pastes on a side of the selections. -/
def Key.pasting : InsertPosition → Key
  | .before => .ofChar 'P'
  | .after => .ofChar 'p'

namespace Scene

/-- **`s.Commands keys`** — in normal mode keys edit, and in the tables that the context sees no hook
listens to them and none of these is mapped. -/
structure Commands (s : Scene) (keys : List Key) : Prop where
  stored : s.context.document < s.editor.store.length
  input : s.editor.input = .basic
  mode : s.context.mode = .normal
  unhooked : ∀ tables ∈ s.visibleTables, tables.hooks.hooks "NormalKey" = []
  unmapped : ∀ tables ∈ s.visibleTables, ∀ key ∈ keys, tables.keymaps.get? .normal key = none

/-- The document at the end of an edition. If it was the outermost one, the undo step is closed. -/
def settled (s : Scene) (d : Document) : Document :=
  if s.context.editionLevel = 0 ∧ s.context.undoEnabled = true then d.commit else d

section Keys

variable {s b : Scene} {keys : List Key} {d : Document} {r : Registers} {mode : KeymapMode}
  {position : InsertPosition} {L : Layout} {main : Nat}

theorem scopes_settled (s : Scene) (d : Document) : (s.settled d).scopes = d.scopes := by
  unfold settled
  split
  · rfl
  · rfl

theorem relays_settled (s : Scene) (h : d.Lays L) : d.Relays L (s.settled d) L := by
  unfold settled
  split
  · exact h.aside rfl rfl
  · exact .refl h

theorem Commands.perform_press (h : s.Commands keys) {key : Key} (hkey : key ∈ keys)
    (run : Runner) : (press run key).perform s = (normalKey key).perform s := by
  have hmode : s.context.mode ≠ .insert := by
    rw [h.mode]
    exact nofun
  have hmapping : ∀ tables ∈ s.visibleTables, tables.keymaps.get? s.context.mode key = none := by
    rw [h.mode]
    exact fun tables htables => h.unmapped tables htables key hkey
  rw [perform_press_of_unmapped h.input hmapping, basicKey, perform_bind_ok (perform_get s),
    if_neg hmode]
  exact perform_bind_ok (perform_runHook_of_none h.unhooked)

theorem Commands.keyed (h : b.Commands keys) (hd : d.scopes = b.document.scopes) :
    (b.keyed d r .normal position 0).Commands keys := by
  have htables : (b.keyed d r .normal position 0).visibleTables = b.visibleTables :=
    visibleTables_keyed_of_scopes h.stored hd
  refine ⟨?_, h.input, rfl, htables ▸ h.unhooked, htables ▸ h.unmapped⟩
  simpa [Scene.keyed, Editor.setDocument] using h.stored

/-- An edition of one edit that succeeds. -/
theorem perform_inEdition_edit (hb : b.context.document < b.editor.store.length)
    {act : Act Scene Unit} {f : Document → Except SelectionError Unit × Document}
    (hact : ∀ t, t.context.tracker = b.context.tracker → act.perform t = (edit f).perform t)
    (hok : (f d).1 = .ok ()) :
    (inEdition act).perform (b.keyed d r mode position 0) =
      (.ok (), b.keyed (b.settled (f d).2) r mode position 0) := by
  have hedit : act.perform (b.begun.keyed d r mode position 0) =
      (.ok (), b.begun.keyed (f d).2 r mode position 0) := by
    rw [hact (b.begun.keyed d r mode position 0) rfl, perform_edit_keyed (b := b.begun) hb,
      hok]
    rfl
  have hbegun : (b.keyed d r mode position 0).begun = b.begun.keyed d r mode position 0 := rfl
  rw [perform_inEdition, hbegun, hedit, ended_begun hb]
  rfl

/-- **Cutting** — every piece is emptied, and what was in them goes to the register. -/
theorem Commands.press_cut (h : s.Commands keys) (hkey : .ofChar 'd' ∈ keys)
    (hlays : s.document.Lays L) (hmain : main < L.pieces.length)
    (hshown : s.document.tracked? s.context.tracker = some (L.shown (.all main))) :
    ∃ t, (press execute (.ofChar 'd')).perform s = (.ok (), t) ∧ t.Commands keys ∧
      t.document.Lays L.emptied ∧
      t.document.tracked? t.context.tracker = some (L.emptied.shown (.all main)) ∧
      t.register Registers.yank = s.selectedTexts := by
  let r := s.editor.registers.put Registers.yank s.selectedTexts
  let d := s.settled (s.document.eraseAll s.context.tracker).2
  have hself : s.keyed s.document s.editor.registers .normal s.context.insertPosition 0 = s :=
    h.mode ▸ keyed_self h.stored
  have hyanked : { s with editor := { s.editor with registers := r } } =
      s.keyed s.document r .normal s.context.insertPosition 0 :=
    congrArg (fun t : Scene => { t with editor := { t.editor with registers := r } }) hself.symm
  have hkeys : normalKey (.ofChar 'd') = (do yankSelections; inEdition erase) := rfl
  obtain ⟨hok, hrelays⟩ := Document.relays_eraseAll hlays hmain hshown
  have hsettled : s.document.Relays L d L.emptied :=
    hrelays.trans (relays_settled s hrelays.lays)
  have hscopes : d.scopes = s.document.scopes :=
    (scopes_settled s _).trans (s.document.types_eraseAll _).typed.scopes_eq
  have hdocument : (s.keyed d r .normal s.context.insertPosition 0).document = d :=
    document_keyed h.stored
  refine ⟨s.keyed d r .normal s.context.insertPosition 0, ?_, h.keyed hscopes, ?_, ?_, ?_⟩
  · rw [h.perform_press hkey, hkeys, perform_bind_ok (perform_yankSelections s), hyanked]
    exact perform_inEdition_edit h.stored (fun t ht => ht ▸ perform_erase t) hok
  · rw [hdocument]
    exact hsettled.lays
  · rw [hdocument]
    exact hsettled.follows _ (.all main) hmain hshown
  · show (r.get? Registers.yank).getD [] = s.selectedTexts
    rw [Registers.get?_put, if_pos rfl]
    rfl

/-- **Pasting** — every piece takes its text from the register. -/
theorem Commands.press_paste (h : s.Commands keys) (side : InsertPosition)
    (hkey : .pasting side ∈ keys) (hlays : s.document.Lays L) (hmain : main < L.pieces.length)
    (hshown : s.document.tracked? s.context.tracker = some (L.shown (.all main)))
    {last : String} (hlast : (s.register Registers.yank).getLast? = some last) :
    ∃ t, (press execute (.pasting side)).perform s = (.ok (), t) ∧
      t.document.Lays (L.upTo L.pieces.length fun i =>
        Piece.inserted side ((s.register Registers.yank).getD i last).toList) ∧
      t.register Registers.yank = s.register Registers.yank := by
  let r := s.editor.registers
  let d := s.settled (s.document.insertAll s.context.tracker (s.register Registers.yank) side).2
  have hself : s.keyed s.document r .normal s.context.insertPosition 0 = s :=
    h.mode ▸ keyed_self h.stored
  have hpaste : (normalKey (.pasting side)).perform s =
      (inEdition (insert (s.register Registers.yank) side)).perform s := by
    cases side <;> exact perform_bind_ok (perform_get s)
  obtain ⟨hok, hrelays⟩ := Document.relays_insertAll hlays hmain hshown hlast side
  refine ⟨s.keyed d r .normal s.context.insertPosition 0, ?_, ?_, rfl⟩
  · rw [h.perform_press hkey, hpaste]
    have hedition : (inEdition (insert (s.register Registers.yank) side)).perform
        (s.keyed s.document r .normal s.context.insertPosition 0) = _ :=
      perform_inEdition_edit h.stored (fun t ht => ht ▸ perform_insert _ side t) hok
    rwa [hself] at hedition
  · rw [document_keyed h.stored]
    exact (relays_settled s hrelays.lays).lays

end Keys

/-! ## Cutting and pasting -/

/-- **What is cut is pasted back** — on either side, at any selections. The register holds what each
of them covered. -/
theorem cut_then_paste {s : Scene} (hs : s.Sound)
    (htracked : (s.document.tracked? s.context.tracker).isSome) (hobliging : s.document.Obliging)
    (side : InsertPosition) (hkeys : s.Commands [.ofChar 'd', .pasting side]) :
    let done := (pressAll execute [.ofChar 'd', .pasting side]).perform s
    done.1 = .ok () ∧ done.2.document.text = s.document.text ∧
      done.2.register Registers.yank =
        s.selections.selections.map fun x => s.document.content x.start x.stop := by
  intro done
  obtain ⟨L, hlays, hselections, hmain, hshown⟩ := hs.exists_shown htracked hobliging
  obtain ⟨t, hcut, ht, hemptied, hpoints, hregister⟩ :=
    hkeys.press_cut (by simp) hlays hmain hshown
  have hbody : ∀ (i : Nat) (p : Piece), L.pieces[i]? = some p →
      (t.register Registers.yank)[i]? = some (String.ofList p.body) := by
    intro i p hp
    rw [hregister]
    exact Layout.selectedTexts_of_piece hlays hshown hp
  -- there is a text for every piece, so the last one never stands in for another
  obtain ⟨last, hlast⟩ : ∃ last, (t.register Registers.yank).getLast? = some last := by
    have hfirst := hbody _ _ (List.getElem?_eq_getElem hmain)
    exact ⟨_, List.getLast?_eq_some_getLast (List.ne_nil_of_mem (List.mem_of_getElem? hfirst))⟩
  have hvalid : s.selections.mainIndex < L.emptied.pieces.length := by
    simpa [Layout.emptied] using hmain
  obtain ⟨u, hpaste, hrefilled, hkept⟩ :=
    ht.press_paste side (by simp) hemptied hvalid hpoints hlast
  have hdone : done = (.ok (), u) := by
    show (pressAll execute [.ofChar 'd', .pasting side]).perform s = _
    rw [pressAll_cons, perform_bind_ok hcut, pressAll_cons, perform_bind_ok hpaste]
    rfl
  rw [hdone]
  refine ⟨rfl, ?_, hkept.trans hregister⟩
  rw [hrefilled.text, hlays.text]
  refine L.text_refilled side fun i p hp => ?_
  rw [List.getD_eq_getElem?_getD, hbody i p hp]
  exact String.toList_ofList

theorem Plain.commands {s : Scene} (h : s.Plain) (hmode : s.context.mode = .normal)
    (keys : List Key) : s.Commands keys :=
  ⟨h.stored, h.input, hmode, fun tables htables => (h.unhooked tables htables).1,
    fun tables htables key _ => h.unmapped tables htables .normal key⟩

set_option maxRecDepth 100000 in
/-- Line ends are cut, once by a backward selection and once by a forward one, and there is a point
between the two. -/
theorem cut_then_paste_over_lines :
    let selected : SelectionList :=
      ⟨[⟨⟨1, 1⟩, ⟨0, 1⟩, []⟩, .point ⟨1, 2⟩, ⟨⟨1, 3⟩, ⟨2, 0⟩, []⟩], 1⟩
    let d : Document :=
      { name := "notes", text := "ab\ncde\n".toList, nextListener := 1
        listeners := [⟨0, .tracker selected⟩] }
    let s : Scene := ⟨{ store := [d] }, { name := "main", document := 0, tracker := 0 }⟩
    let done := (pressAll execute [.ofChar 'd', .pasting .after]).perform s
    s.Sound ∧ s.document.Obliging ∧ s.Commands [.ofChar 'd', .pasting .after] ∧ done.1 = .ok () ∧
      done.2.document.text = "ab\ncde\n".toList ∧
      done.2.register Registers.yank = ["b\nc", "", "\n"] := by
  intro selected d s done
  have hwithin : selected.Within (IsPosition d.text) := by
    unfold SelectionList.Within IsPosition
    decide
  have hsound : s.Sound := sound_of_tracked (by decide) rfl ⟨by decide, by decide⟩ hwithin
  have hobliging : s.document.Obliging := by
    intro l hl
    rw [List.mem_singleton.mp hl]
    exact Nat.lt_of_sub_eq_succ rfl
  have hplain : s.Plain := .of_empty Nat.zero_lt_one rfl fun tables h =>
    (List.mem_pair.mp h).elim id id
  have hkeys : s.Commands [.ofChar 'd', .pasting .after] := hplain.commands rfl _
  obtain ⟨hok, htext, hregister⟩ := cut_then_paste hsound rfl hobliging .after hkeys
  have hcut : s.selections.selections.map (fun x => s.document.content x.start x.stop) =
      ["b\nc", "", "\n"] := by cbv
  exact ⟨hsound, hobliging, hkeys, hok, htext, hregister.trans hcut⟩

set_option maxRecDepth 100000 in
/-- With a listener that fails, what the first selection covered is cut, and only the empty text of
the other one is pasted. -/
theorem cut_stops_short :
    let selected : SelectionList := ⟨[⟨⟨0, 0⟩, ⟨0, 1⟩, []⟩, .point ⟨0, 2⟩], 0⟩
    let d : Document :=
      { name := "notes", text := "abc\n".toList, nextListener := 2
        listeners := [⟨0, .tracker selected⟩,
          ⟨1, .observer "guard" fun _ => { failure := some .empty }⟩] }
    let s : Scene := ⟨{ store := [d] }, { name := "main", document := 0, tracker := 0 }⟩
    let cut := (press execute (.ofChar 'd')).perform s
    let pasted := (press execute (.pasting .before)).perform cut.2
    s.Sound ∧ s.document.tracked? s.context.tracker = some selected ∧
      s.Commands [.ofChar 'd', .pasting .before] ∧ pasted.2.document.text = "bc\n".toList ∧
      pasted.2.document.text ≠ s.document.text := by
  intro selected d s cut pasted
  have hwithin : selected.Within (IsPosition d.text) := by
    unfold SelectionList.Within IsPosition
    decide
  have hsound : s.Sound := sound_of_tracked (by decide) rfl ⟨by decide, by decide⟩ hwithin
  have hplain : s.Plain := .of_empty Nat.zero_lt_one rfl fun tables h =>
    (List.mem_pair.mp h).elim id id
  have htext : ((press execute (.pasting .before)).perform
      ((press execute (.ofChar 'd')).perform s).2).2.document.text = "bc\n".toList := by cbv
  refine ⟨hsound, rfl, hplain.commands rfl _, htext, ?_⟩
  exact fun h => absurd (htext.symm.trans h) (by decide)

/-! ## Typing and erasing -/

section TypeAndErase

variable {b s : Scene} {d : Document} {r : Registers} {side : InsertPosition}

theorem Plain.press_character (hplain : b.Plain) (hd : d.scopes = b.document.scopes) (c : Char) :
    let typed := d.insertAll b.context.tracker [String.singleton c] side
    (press execute (.ofPlain c)).perform (b.keyed d r .insert side 1) =
      (typed.1.mapError CommandError.invalidSelections, b.keyed typed.2 r .insert side 1) := by
  have hmode : (b.keyed d r .insert side 1).context.mode = .insert := rfl
  rw [(hplain.keyed hd).perform_press, if_pos hmode, insertKey_of_typed? (Key.typed?_ofPlain c),
    typeText, perform_bind_ok (perform_get _), perform_insert, perform_edit_keyed hplain.stored]
  rfl

theorem Plain.press_backspace (hplain : b.Plain) (hd : d.scopes = b.document.scopes) :
    let erased := d.eraseBeforeAll b.context.tracker
    (press execute (.ofCode .backspace)).perform (b.keyed d r .insert side 1) =
      (erased.1.mapError CommandError.invalidSelections, b.keyed erased.2 r .insert side 1) := by
  have hmode : (b.keyed d r .insert side 1).context.mode = .insert := rfl
  have hkey : insertKey (.ofCode .backspace) = eraseBefore := rfl
  rw [(hplain.keyed hd).perform_press, if_pos hmode, hkey, perform_eraseBefore,
    perform_edit_keyed hplain.stored]
  rfl

theorem Plain.enter (hplain : s.Plain) (hmode : s.context.mode = .normal) (side : InsertPosition) :
    (press execute (.entering side)).perform s =
      (.ok (), s.keyed s.document s.editor.registers .insert side 1) := by
  have hself : s.keyed s.document s.editor.registers .normal s.context.insertPosition 0 = s :=
    hmode ▸ keyed_self hplain.stored
  have hentered : (press execute (.entering side)).perform
      (s.keyed s.document s.editor.registers .normal s.context.insertPosition 0) = _ :=
    hplain.press_entering rfl side
  rwa [hself] at hentered

/-- The document after a character has been typed and erased, whether or not that has failed. -/
theorem Plain.document_typed_erased (hplain : s.Plain) (hmode : s.context.mode = .normal)
    (side : InsertPosition) (c : Char) :
    ([.entering side, .ofPlain c, .ofCode .backspace].foldl
      (fun t key => ((press execute key).perform t).2) s).document =
      ((s.document.insertAll s.context.tracker [String.singleton c] side).2.eraseBeforeAll
        s.context.tracker).2 := by
  have hscopes := (s.document.types_insertAll s.context.tracker [String.singleton c] side).typed
    |>.scopes_eq
  rw [List.foldl_cons, hplain.enter hmode, List.foldl_cons, hplain.press_character rfl,
    List.foldl_cons, hplain.press_backspace hscopes, List.foldl_nil, document_keyed hplain.stored]

/-- **What is typed before a selection or at a point is erased by the next key** — at all selections,
whatever the character is. -/
theorem typed_then_erased (hs : s.Sound)
    (htracked : (s.document.tracked? s.context.tracker).isSome) (hobliging : s.document.Obliging)
    (hplain : s.Plain) (hmode : s.context.mode = .normal) (side : InsertPosition)
    (hside : side = .before ∨ ∀ x ∈ s.selections.selections, x.isPoint) (c : Char) :
    let done := (pressAll execute [.entering side, .ofPlain c, .ofCode .backspace]).perform s
    done.1 = .ok () ∧ done.2.document.text = s.document.text := by
  intro done
  obtain ⟨L, hlays, hselections, hmain, hshown⟩ := hs.exists_shown htracked hobliging
  have hlist : s.selections.selections = L.selections := congrArg (·.selections) hselections
  let typed := s.document.insertAll s.context.tracker [String.singleton c] side
  let erased := typed.2.eraseBeforeAll s.context.tracker
  obtain ⟨htyped, herased, htext⟩ : typed.1 = .ok () ∧ erased.1 = .ok () ∧
      erased.2.text = s.document.text :=
    Document.typed_erased hlays hmain hshown (hlist ▸ hside) c
  have hscopes : typed.2.scopes = s.document.scopes :=
    (s.document.types_insertAll _ _ _).typed.scopes_eq
  have hcharacter : (press execute (.ofPlain c)).perform
      (s.keyed s.document s.editor.registers .insert side 1) =
      (.ok (), s.keyed typed.2 s.editor.registers .insert side 1) :=
    (hplain.press_character rfl c).trans
      (Prod.ext (congrArg (Except.mapError _) htyped) rfl)
  have hbackspace : (press execute (.ofCode .backspace)).perform
      (s.keyed typed.2 s.editor.registers .insert side 1) =
      (.ok (), s.keyed erased.2 s.editor.registers .insert side 1) :=
    (hplain.press_backspace hscopes).trans (Prod.ext (congrArg (Except.mapError _) herased) rfl)
  have hdone : done = (.ok (), s.keyed erased.2 s.editor.registers .insert side 1) := by
    show (pressAll execute [.entering side, .ofPlain c, .ofCode .backspace]).perform s = _
    rw [pressAll_cons, perform_bind_ok (hplain.enter hmode side), pressAll_cons,
      perform_bind_ok hcharacter, pressAll_cons, perform_bind_ok hbackspace]
    rfl
  rw [hdone, document_keyed hplain.stored]
  exact ⟨rfl, htext⟩

end TypeAndErase

set_option maxRecDepth 100000 in
/-- Lines are broken at two points and joined again. -/
theorem typed_then_erased_at_points :
    let points : SelectionList := ⟨[.point ⟨0, 1⟩, .point ⟨1, 0⟩], 0⟩
    let d : Document :=
      { name := "notes", text := "ab\ncd\n".toList, nextListener := 1
        listeners := [⟨0, .tracker points⟩] }
    let s : Scene := ⟨{ store := [d] }, { name := "main", document := 0, tracker := 0 }⟩
    let done := (pressAll execute [.entering .after, .ofPlain '\n', .ofCode .backspace]).perform s
    s.Sound ∧ s.Plain ∧ s.document.Obliging ∧ (∀ x ∈ s.selections.selections, x.isPoint) ∧
      done.1 = .ok () ∧ done.2.document.text = "ab\ncd\n".toList := by
  intro points d s done
  have hwithin : points.Within (IsPosition d.text) := by
    unfold SelectionList.Within IsPosition
    decide
  have hsound : s.Sound := sound_of_tracked (by decide) rfl ⟨by decide, by decide⟩ hwithin
  have hplain : s.Plain := .of_empty Nat.zero_lt_one rfl fun tables h =>
    (List.mem_pair.mp h).elim id id
  have hobliging : s.document.Obliging := by
    intro l hl
    rw [List.mem_singleton.mp hl]
    exact Nat.zero_lt_two
  have hpoints : ∀ x ∈ s.selections.selections, x.isPoint := by
    show ∀ x ∈ points.selections, x.isPoint
    decide
  obtain ⟨hok, htext⟩ :=
    typed_then_erased hsound rfl hobliging hplain rfl .after (.inr hpoints) '\n'
  exact ⟨hsound, hplain, hobliging, hpoints, hok, htext⟩

set_option maxRecDepth 100000 in
/-- What is typed behind a selection stays, and the character before the selection goes. With a
listener that fails at insertions, the first of two points has nothing typed before it, and the
character that was there goes. -/
theorem erased_before_typed_behind :
    let selected : SelectionList := ⟨[⟨⟨0, 1⟩, ⟨0, 2⟩, []⟩], 0⟩
    let points : SelectionList := ⟨[.point ⟨0, 1⟩, .point ⟨0, 2⟩], 0⟩
    let d : Document :=
      { name := "notes", text := "ab\n".toList, nextListener := 1
        listeners := [⟨0, .tracker selected⟩] }
    let guarded : Document :=
      { name := "notes", text := "abc\n".toList, nextListener := 2
        listeners := [⟨0, .tracker points⟩, ⟨1, .observer "guard" fun event =>
          { failure := match event with
            | .inserted _ _ => some .empty
            | .erased _ _ => none }⟩] }
    let s : Scene := ⟨{ store := [d] }, { name := "main", document := 0, tracker := 0 }⟩
    let t : Scene := ⟨{ store := [guarded] }, { name := "main", document := 0, tracker := 0 }⟩
    let after (keys : List Key) (s : Scene) : Scene :=
      keys.foldl (fun s key => ((press execute key).perform s).2) s
    let behind := after [.entering .after, .ofPlain 'x', .ofCode .backspace] s
    let halted := after [.entering .before, .ofPlain 'x', .ofCode .backspace] t
    (s.Sound ∧ s.Plain ∧ s.context.mode = .normal ∧ behind.document.text = "bx\n".toList ∧
      behind.document.text ≠ s.document.text) ∧
    (t.Sound ∧ t.Plain ∧ t.context.mode = .normal ∧ halted.document.text = "bc\n".toList ∧
      halted.document.text ≠ t.document.text) := by
  intro selected points d guarded s t after behind halted
  have hselected : selected.Within (IsPosition d.text) := by
    unfold SelectionList.Within IsPosition
    decide
  have hpoints : points.Within (IsPosition guarded.text) := by
    unfold SelectionList.Within IsPosition
    decide
  have hs : s.Sound := sound_of_tracked (by decide) rfl ⟨by decide, by decide⟩ hselected
  have ht : t.Sound := sound_of_tracked (by decide) rfl ⟨by decide, by decide⟩ hpoints
  have hsplain : s.Plain := .of_empty Nat.zero_lt_one rfl fun tables h =>
    (List.mem_pair.mp h).elim id id
  have htplain : t.Plain := .of_empty Nat.zero_lt_one rfl fun tables h =>
    (List.mem_pair.mp h).elim id id
  have hleft : ((s.document.insertAll 0 ["x"] .after).2.eraseBeforeAll 0).2.text =
      "bx\n".toList := by cbv
  have hright : ((t.document.insertAll 0 ["x"] .before).2.eraseBeforeAll 0).2.text =
      "bc\n".toList := by cbv
  have hbehind : behind.document.text = "bx\n".toList :=
    (congrArg Document.text (hsplain.document_typed_erased rfl .after 'x')).trans hleft
  have hhalted : halted.document.text = "bc\n".toList :=
    (congrArg Document.text (htplain.document_typed_erased rfl .before 'x')).trans hright
  refine ⟨⟨hs, hsplain, rfl, hbehind, ?_⟩, ht, htplain, rfl, hhalted, ?_⟩
  · exact fun h => absurd (hbehind.symm.trans h) (by decide)
  · exact fun h => absurd (hhalted.symm.trans h) (by decide)

end Scene

end ModalEdit
