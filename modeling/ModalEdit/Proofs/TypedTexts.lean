import ModalEdit.Proofs.KeyRoundTrips

/-!
# Typing is insertion

Each key that types goes to every selection before the next key is read; an insertion of a whole
text does all of it at one selection before it comes to the next. Both change the pieces of a layout
and nothing else, and for one piece it makes no difference: what is inserted beside a selection in
two goes comes to stand as if it were inserted in one (`Piece.inserted_inserted`). So, by induction
on the text, entering insert mode, typing and leaving it again leads to the text and the selections
that one insertion leads to (`typing_is_insertion`).

A listener that fails sets the two apart, since it ends one key, but the whole insertion
(`typing_stops_short`).
-/

namespace ModalEdit

open Act Text

/-! ## Pieces -/

namespace Piece

/-- Two insertions on one side are one. -/
theorem inserted_inserted (side : InsertPosition) (added more : List Char) (p : Piece) :
    (p.inserted side added).inserted side more = p.inserted side (added ++ more) := by
  cases side with
  | before => simp [inserted]
  | after =>
    by_cases hbody : p.body = []
    · rw [inserted_of_point added hbody, inserted_of_point (added ++ more) hbody, ← List.append_assoc]
      exact inserted_of_point more hbody
    · have hlonger : p.body ++ added ≠ [] := List.append_ne_nil_of_left_ne_nil hbody added
      rw [inserted_of_body added hbody, inserted_of_body (added ++ more) hbody, ← List.append_assoc]
      exact inserted_of_body more hlonger

theorem inserted_nil (side : InsertPosition) (p : Piece) : p.inserted side [] = p := by
  cases side with
  | before => simp [inserted]
  | after => simp [inserted]

/-- **Typing at one selection** — by induction on the text, each character being an insertion. -/
theorem changeAll_typing (side : InsertPosition) (text : List Char) (p : Piece) :
    Stroke.changeAll (text.map (Stroke.typing side)) p = p.inserted side text := by
  induction text generalizing p with
  | nil => exact (p.inserted_nil side).symm
  | cons c text ih =>
    have hchange : (Stroke.typing side c).change p = p.inserted side [c] := by
      cases side <;> rfl
    show Stroke.changeAll (text.map (Stroke.typing side)) ((Stroke.typing side c).change p) = _
    rw [ih, hchange, inserted_inserted, List.singleton_append]

end Piece

/-- Typing at all selections. -/
theorem Layout.through_typing (L : Layout) (main : Nat) (side : InsertPosition) (text : List Char) :
    L.through (.all main) (Stroke.changeAll (text.map (Stroke.typing side))) =
      L.upTo L.pieces.length fun _ => Piece.inserted side text := by
  have hchange : Stroke.changeAll (text.map (Stroke.typing side)) = Piece.inserted side text :=
    funext fun p => p.changeAll_typing side text
  rw [hchange, ← L.below_length _ main, L.below_eq_upTo]

/-! ## Keys -/

/-- The keys that enter insert mode on a side of the selections, type a text and go back. -/
def Key.writing (side : InsertPosition) (text : List Char) : List Key :=
  .entering side :: (text.map Key.ofPlain ++ [.ofCode .escape])

namespace Scene

variable {s b : Scene} {d : Document} {r : Registers} {side : InsertPosition}

/-- The key that leaves insert mode, whether or not that ends the outermost edition. -/
theorem Plain.leave (hplain : b.Plain) (hd : d.scopes = b.document.scopes) :
    (press execute (.ofCode .escape)).perform (b.keyed d r .insert side 1) =
      (.ok (), b.keyed (b.settled d) r .normal side 0) := by
  have hmode : (b.keyed d r .insert side 1).context.mode = .insert := rfl
  have hkey : insertKey (.ofCode .escape) = leaveInsertMode := rfl
  have hescaping : (b.keyed d r .insert side 1).escaping = b.keyed d r .insert side 1 := if_pos rfl
  rw [(hplain.keyed hd).perform_press, if_pos hmode, hkey, perform_leaveInsertMode, hescaping]
  exact congrArg (Prod.mk _) (ended_begun hplain.stored)

/-- Keys that write a text lead to the layout in which every piece has taken it. -/
theorem Shows.press_writing {L : Layout} {main : Nat} (hs : s.Shows L (.all main))
    (hplain : s.Plain) (hmode : s.context.mode = .normal) (side : InsertPosition)
    (text : List Char) :
    ∃ d, (pressAll execute (Key.writing side text)).perform s =
        (.ok (), s.keyed d s.editor.registers .normal side 0) ∧
      s.document.Relays L d (L.upTo L.pieces.length fun _ => Piece.inserted side text) := by
  have htyped : (text.map Key.ofPlain).map Key.typed? = text.map some := by
    rw [List.map_map]
    exact List.map_congr_left fun c _ => Key.typed?_ofPlain c
  obtain ⟨d, hpressed, hd⟩ : ∃ d, (pressAll execute (text.map Key.ofPlain)).perform
      (s.keyed s.document s.editor.registers .insert side 1) = (.ok (), s.keyed d _ .insert side 1) ∧
      s.Reaches L (.all main) _ d := hs.start.pressAll_typed hs hplain htyped
  have hrelays := hd.relays
  rw [Function.comp_id, L.through_typing] at hrelays
  refine ⟨s.settled d, ?_, hrelays.trans (relays_settled s hrelays.lays)⟩
  rw [Key.writing, pressAll_cons, perform_bind_ok (hplain.enter hmode side),
    perform_pressAll_append hpressed, pressAll_cons,
    perform_bind_ok (hplain.leave hd.typed.scopes_eq)]
  rfl

/-- **Typing is insertion** — at any selections and on either side, a text that is typed key by key
comes to the same text of the document and the same selections as if it were inserted at once. -/
theorem typing_is_insertion (hs : s.Sound)
    (htracked : (s.document.tracked? s.context.tracker).isSome) (hobliging : s.document.Obliging)
    (hplain : s.Plain) (hmode : s.context.mode = .normal) (side : InsertPosition) (text : String) :
    let typed := (pressAll execute (Key.writing side text.toList)).perform s
    let inserted := (insert [text] side).perform s
    typed.1 = .ok () ∧ inserted.1 = .ok () ∧
      typed.2.document.text = inserted.2.document.text ∧
      typed.2.selections = inserted.2.selections := by
  intro typed inserted
  obtain ⟨L, hlays, -, hmain, hshown⟩ := hs.exists_shown htracked hobliging
  have hshows : s.Shows L (.all s.selections.mainIndex) := ⟨hlays, hmain, hshown⟩
  obtain ⟨d, hpressed, hrelays⟩ := hshows.press_writing hplain hmode side text.toList
  -- the text is the last of the list, so it also serves all further selections
  have htexts : [text].getLast? = some text := rfl
  obtain ⟨hok, hrelays'⟩ := Document.relays_insertAll hlays hmain hshown htexts side
  have htext : ∀ i, [text].getD i text = text := by
    intro i
    cases i <;> rfl
  simp only [htext] at hrelays'
  obtain ⟨t, hperform, hdocument, hcontext⟩ := perform_edit_of_ok hs.stored
    (f := (·.insertAll s.context.tracker [text] side)) hok
  have htyped : typed = (.ok (), s.keyed d s.editor.registers .normal side 0) := hpressed
  have hinserted : inserted = (.ok (), t) := hperform
  have hkeyed : (s.keyed d s.editor.registers .normal side 0).document = d :=
    document_keyed hplain.stored
  rw [htyped, hinserted]
  refine ⟨rfl, rfl, ?_, ?_⟩
  · rw [hkeyed, hdocument, hrelays.lays.text, hrelays'.lays.text]
  · have hleft := hrelays.follows _ (.all s.selections.mainIndex) hmain hshown
    have hright := hrelays'.follows _ (.all s.selections.mainIndex) hmain hshown
    rw [← hkeyed] at hleft
    rw [← hdocument, ← hcontext] at hright
    exact (Document.selections_of_tracked? hleft).trans
      (Document.selections_of_tracked? hright).symm

set_option maxRecDepth 100000 in
/-- A line end and a tab are typed behind a backward selection and at a point. -/
theorem typing_is_insertion_over_lines :
    let selected : SelectionList := ⟨[⟨⟨0, 2⟩, ⟨0, 1⟩, []⟩, .point ⟨1, 0⟩], 1⟩
    let d : Document :=
      { name := "notes", text := "ab\ncd\n".toList, nextListener := 1
        listeners := [⟨0, .tracker selected⟩] }
    let s : Scene := ⟨{ store := [d] }, { name := "main", document := 0, tracker := 0 }⟩
    let typed := (pressAll execute (Key.writing .after "\té\n".toList)).perform s
    s.Sound ∧ s.Plain ∧ s.document.Obliging ∧ typed.1 = .ok () ∧
      typed.2.document.text = "ab\té\n\n\té\ncd\n".toList ∧
      typed.2.selections = ⟨[⟨⟨1, 0⟩, ⟨0, 1⟩, []⟩, .point ⟨3, 0⟩], 1⟩ := by
  intro selected d s typed
  have hwithin : selected.Within (IsPosition d.text) := by
    unfold SelectionList.Within IsPosition
    decide
  have hsound : s.Sound := sound_of_tracked (by decide) rfl ⟨by decide, by decide⟩ hwithin
  have hplain : s.Plain := .of_empty Nat.zero_lt_one rfl fun tables h =>
    (List.mem_pair.mp h).elim id id
  have hobliging : s.document.Obliging := by
    intro l hl
    rw [List.mem_singleton.mp hl]
    exact Nat.one_lt_two
  obtain ⟨hok, -, htext, hselections⟩ :=
    typing_is_insertion hsound rfl hobliging hplain rfl .after "\té\n"
  exact ⟨hsound, hplain, hobliging, hok, htext.trans (by cbv), hselections.trans (by cbv)⟩

set_option maxRecDepth 100000 in
/-- With a listener that always fails, the first character that is typed is the only one. With one
that fails at one place, keys that are pressed in spite of it come to a selection that the insertion
does not come to. -/
theorem typing_stops_short :
    let point : SelectionList := .single (.point ⟨0, 0⟩)
    let points : SelectionList := ⟨[.point ⟨0, 0⟩, .point ⟨0, 1⟩], 0⟩
    let guarded : Document :=
      { name := "notes", text := "ab\n".toList, nextListener := 2
        listeners := [⟨0, .tracker point⟩,
          ⟨1, .observer "guard" fun _ => { failure := some .empty }⟩] }
    let watched : Document :=
      { name := "notes", text := "ab\n".toList, nextListener := 2
        listeners := [⟨0, .tracker points⟩, ⟨1, .observer "guard" fun event =>
          { failure := if event = .inserted ⟨0, 1⟩ ⟨0, 2⟩ then some .empty else none }⟩] }
    let s : Scene := ⟨{ store := [guarded] }, { name := "main", document := 0, tracker := 0 }⟩
    let t : Scene := ⟨{ store := [watched] }, { name := "main", document := 0, tracker := 0 }⟩
    let keys := Key.writing .before ['x', 'y']
    let halted := ((pressAll execute keys).perform s).2
    let resumed := keys.foldl (fun t key => ((press execute key).perform t).2) t
    (s.Sound ∧ s.Plain ∧ s.context.mode = .normal ∧ halted.document.text = "xab\n".toList ∧
      ((insert ["xy"] .before).perform s).2.document.text = "xyab\n".toList ∧
      halted.document.text ≠ ((insert ["xy"] .before).perform s).2.document.text) ∧
    (t.Sound ∧ t.Plain ∧ t.context.mode = .normal ∧ resumed.document.text = "yaxyb\n".toList ∧
      ((insert ["xy"] .before).perform t).2.document.text = "xyaxyb\n".toList ∧
      resumed.document.text ≠ ((insert ["xy"] .before).perform t).2.document.text) := by
  intro point points guarded watched s t keys halted resumed
  have hpoint : point.Within (IsPosition guarded.text) := by
    unfold SelectionList.Within IsPosition
    decide
  have hpoints : points.Within (IsPosition watched.text) := by
    unfold SelectionList.Within IsPosition
    decide
  have hs : s.Sound := sound_of_tracked (by decide) rfl ⟨by decide, by decide⟩ hpoint
  have ht : t.Sound := sound_of_tracked (by decide) rfl ⟨by decide, by decide⟩ hpoints
  have hsplain : s.Plain := .of_empty Nat.zero_lt_one rfl fun tables h =>
    (List.mem_pair.mp h).elim id id
  have htplain : t.Plain := .of_empty Nat.zero_lt_one rfl fun tables h =>
    (List.mem_pair.mp h).elim id id
  have hhalted : ((pressAll execute (Key.writing .before ['x', 'y'])).perform s).2.document.text =
      "xab\n".toList := by cbv
  have hinserted : ((insert ["xy"] .before).perform s).2.document.text = "xyab\n".toList := by cbv
  have hresumed : ((Key.writing .before ['x', 'y']).foldl
      (fun t key => ((press execute key).perform t).2) t).document.text = "yaxyb\n".toList := by cbv
  have hinserted' : ((insert ["xy"] .before).perform t).2.document.text = "xyaxyb\n".toList := by cbv
  refine ⟨⟨hs, hsplain, rfl, hhalted, hinserted, ?_⟩, ht, htplain, rfl, hresumed, hinserted', ?_⟩
  · exact fun h => absurd ((hhalted.symm.trans h).trans hinserted) (by decide)
  · exact fun h => absurd ((hresumed.symm.trans h).trans hinserted') (by decide)

end Scene

end ModalEdit
