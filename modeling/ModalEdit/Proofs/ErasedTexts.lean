import ModalEdit.Proofs.InsertedTexts

/-!
# Texts erased at all selections

What the selections cover, erased one after the other from the last selection to the first while
the tracker follows every step, is what they covered in the text that there was, no more and no
less (`erase_removes`). `Text.without` is that text: it goes once through the old text and leaves
out every character whose bytes are gone.

An erasure takes the body of one piece and leaves every gap as it is. So the selections stay apart
from the first erasure to the last, and each index still finds its own selection. What is left are
the gaps (`withoutFrom_bodies`), and a point behind each of them (`Layout.emptied`).

It takes listeners that do not fail: a failure leaves the selections that are still to come with
what they cover (`erase_stops_short`).
-/

namespace ModalEdit

open Text

/-! ## Leaving out characters -/

namespace Text

/-- What is left of a text that begins at byte `n`. Whether a character is gone is a matter of the
bytes between which it lies. -/
def withoutFrom (gone : Nat → Nat → Bool) : Nat → List Char → List Char
  | _, [] => []
  | n, c :: cs =>
    let rest := withoutFrom gone (n + c.utf8Size) cs
    if gone n (n + c.utf8Size) then rest else c :: rest

/-- The text without the characters that are gone. -/
def without (gone : Nat → Nat → Bool) (text : List Char) : List Char := withoutFrom gone 0 text

variable {gone gone' : Nat → Nat → Bool} {n : Nat} {text : List Char}

theorem withoutFrom_append (gone : Nat → Nat → Bool) (n : Nat) (a b : List Char) :
    withoutFrom gone n (a ++ b) =
      withoutFrom gone n a ++ withoutFrom gone (n + byteLength a) b := by
  induction a generalizing n with
  | nil => rfl
  | cons c cs ih =>
    rw [List.cons_append, withoutFrom, withoutFrom, ih, byteLength_cons, Nat.add_assoc]
    split
    · rfl
    · rfl

/-- What happens elsewhere does not matter. -/
theorem withoutFrom_congr (h : ∀ start stop, n ≤ start → start < stop →
      stop ≤ n + byteLength text → gone start stop = gone' start stop) :
    withoutFrom gone n text = withoutFrom gone' n text := by
  induction text generalizing n with
  | nil => rfl
  | cons c cs ih =>
    have hpos := c.utf8Size_pos
    rw [byteLength_cons] at h
    have hfirst : gone n (n + c.utf8Size) = gone' n (n + c.utf8Size) := by
      apply h
      · exact le_rfl
      · omega
      · omega
    have hrest : withoutFrom gone (n + c.utf8Size) cs = withoutFrom gone' (n + c.utf8Size) cs := by
      apply ih
      intro start stop hstart hlt hstop
      apply h
      · omega
      · exact hlt
      · omega
    rw [withoutFrom, withoutFrom, hfirst, hrest]

theorem withoutFrom_false (n : Nat) (text : List Char) :
    withoutFrom (fun _ _ => false) n text = text := by
  induction text generalizing n with
  | nil => rfl
  | cons c cs ih =>
    rw [withoutFrom, ih]
    rfl

theorem withoutFrom_true (n : Nat) (text : List Char) :
    withoutFrom (fun _ _ => true) n text = [] := by
  induction text generalizing n with
  | nil => rfl
  | cons c cs ih =>
    rw [withoutFrom, ih]
    rfl

end Text

/-! ## The bytes that selections cover -/

/-- The bytes of a text between which a selection lies. -/
def Selection.span (text : List Char) (x : Selection) : Nat × Nat :=
  (offset text x.start, offset text x.stop)

/-- The bytes between which the selections of pieces lie that come behind byte `n`. -/
def spansBehind (n : Nat) : List Piece → List (Nat × Nat)
  | [] => []
  | p :: rest =>
    (n + byteLength p.gap, n + byteLength p.text) :: spansBehind (n + byteLength p.text) rest

namespace Piece

theorem byteLength_text (p : Piece) : byteLength p.text = byteLength p.gap + byteLength p.body :=
  byteLength_append _ _

theorem byteLength_flatMap_text (pieces : List Piece) :
    byteLength (pieces.flatMap text) =
      byteLength (pieces.flatMap gap) + byteLength (pieces.flatMap body) := by
  induction pieces with
  | nil => rfl
  | cons p pieces ih =>
    simp only [List.flatMap_cons, byteLength_append, ih, p.byteLength_text]
    omega

end Piece

section Spans

variable {before rest : List Char} {pieces : List Piece} {n : Nat}

theorem span_selection (p : Piece) (before rest : List Char) :
    (p.selection before).span (before ++ p.text ++ rest) =
      (byteLength before + byteLength p.gap, byteLength before + byteLength p.text) := by
  have hcovers := p.covers_selection before rest
  rw [Selection.span, hcovers.start, hcovers.stop, byteLength_append, p.byteLength_text,
    Nat.add_assoc]

theorem map_span_selectionsBehind (before : List Char) {text : List Char}
    (htext : text = before ++ (pieces.flatMap Piece.text ++ rest)) :
    (selectionsBehind before pieces).map (Selection.span text) =
      spansBehind (byteLength before) pieces := by
  induction pieces generalizing before with
  | nil => rfl
  | cons p pieces ih =>
    have hfirst : text = before ++ p.text ++ (pieces.flatMap Piece.text ++ rest) := by
      rw [htext]
      simp
    rw [selectionsBehind, List.map_cons, ih (before ++ p.text) hfirst, spansBehind,
      byteLength_append, hfirst, span_selection]

theorem map_span_selections (L : Layout) :
    L.selections.map (Selection.span L.text) = spansBehind 0 L.pieces :=
  map_span_selectionsBehind [] rfl

theorem lt_of_mem_spansBehind (hgaps : ∀ p ∈ pieces, p.gap ≠ []) :
    ∀ r ∈ spansBehind n pieces, n < r.1 := by
  induction pieces generalizing n with
  | nil => simp [spansBehind]
  | cons p pieces ih =>
    obtain ⟨hgap, hgaps⟩ := List.forall_mem_cons.mp hgaps
    refine List.forall_mem_cons.mpr ⟨?_, fun r hr => ?_⟩
    · exact Nat.lt_add_of_pos_right (byteLength_pos hgap)
    · have := ih hgaps r hr
      omega

theorem spansBehind_append (n : Nat) (pieces more : List Piece) :
    spansBehind n (pieces ++ more) =
      spansBehind n pieces ++ spansBehind (n + byteLength (pieces.flatMap Piece.text)) more := by
  induction pieces generalizing n with
  | nil => rfl
  | cons p pieces ih =>
    rw [List.cons_append, spansBehind, spansBehind, ih, List.flatMap_cons, byteLength_append,
      Nat.add_assoc, List.cons_append]

@[simp] theorem length_spansBehind (n : Nat) (pieces : List Piece) :
    (spansBehind n pieces).length = pieces.length := by
  induction pieces generalizing n with
  | nil => rfl
  | cons p pieces ih => rw [spansBehind, List.length_cons, List.length_cons, ih]

/-- Together the selections cover the bodies. -/
theorem sum_spansBehind (n : Nat) (pieces : List Piece) :
    ((spansBehind n pieces).map fun r => r.2 - r.1).sum =
      byteLength (pieces.flatMap Piece.body) := by
  induction pieces generalizing n with
  | nil => rfl
  | cons p pieces ih =>
    rw [spansBehind, List.map_cons, List.sum_cons, ih, List.flatMap_cons, byteLength_append,
      p.byteLength_text]
    omega

/-- **Leaving out piece by piece** — what goes because of one span lies in its own piece, so of
every piece that is left which its own span leaves. -/
theorem withoutFrom_spans (hit : Nat × Nat → Nat → Nat → Bool) {left : Piece → List Char}
    (hbehind : ∀ r start stop, r.1 ≤ r.2 → r.2 ≤ start → start < stop → hit r start stop = false)
    (hahead : ∀ r start stop, start < stop → stop < r.1 → hit r start stop = false)
    (hown : ∀ n, ∀ p ∈ pieces,
      withoutFrom (hit (n + byteLength p.gap, n + byteLength p.text)) n p.text = left p)
    (hgaps : ∀ p ∈ pieces.tail, p.gap ≠ []) (n : Nat) (rest : List Char) :
    withoutFrom (fun start stop => (spansBehind n pieces).any fun r => hit r start stop) n
      (pieces.flatMap Piece.text ++ rest) = pieces.flatMap left ++ rest := by
  induction pieces generalizing n with
  | nil => exact withoutFrom_false n rest
  | cons p pieces ih =>
    obtain ⟨hfirst, hothers⟩ : (∀ n, withoutFrom (hit (n + byteLength p.gap, n + byteLength p.text))
        n p.text = left p) ∧ ∀ n, ∀ q ∈ pieces,
          withoutFrom (hit (n + byteLength q.gap, n + byteLength q.text)) n q.text = left q :=
      ⟨fun n => hown n p List.mem_cons_self, fun n q hq => hown n q (List.mem_cons_of_mem p hq)⟩
    have hlater := lt_of_mem_spansBehind (n := n + byteLength p.text) hgaps
    have hpiece : withoutFrom (fun start stop =>
        (spansBehind n (p :: pieces)).any fun r => hit r start stop) n p.text = left p := by
      refine (withoutFrom_congr fun start stop _ hlt hstop => ?_).trans (hfirst n)
      have hnone : (spansBehind (n + byteLength p.text) pieces).any (hit · start stop) = false := by
        rw [List.any_eq_false]
        intro r hr
        rw [hahead r start stop hlt (hstop.trans_lt (hlater r hr))]
        exact Bool.false_ne_true
      rw [spansBehind, List.any_cons, hnone, Bool.or_false]
    have hrest : withoutFrom (fun start stop =>
        (spansBehind n (p :: pieces)).any fun r => hit r start stop) (n + byteLength p.text)
        (pieces.flatMap Piece.text ++ rest) = pieces.flatMap left ++ rest := by
      refine (withoutFrom_congr fun start stop hstart hlt _ => ?_).trans
        (ih hothers (fun q hq => hgaps q (List.mem_of_mem_tail hq)) (n + byteLength p.text))
      have hle : n + byteLength p.gap ≤ n + byteLength p.text := by
        rw [p.byteLength_text]
        omega
      rw [spansBehind, List.any_cons, hbehind _ start stop hle hstart hlt, Bool.false_or]
    rw [List.flatMap_cons, List.append_assoc, withoutFrom_append, hpiece, hrest, List.flatMap_cons,
      List.append_assoc]

/-- **Leaving out what the selections cover** — of every piece its gap is left. -/
theorem withoutFrom_bodies (hgaps : ∀ p ∈ pieces.tail, p.gap ≠ []) (n : Nat) (rest : List Char) :
    withoutFrom (fun start stop => (spansBehind n pieces).any fun r => r.1 ≤ start && stop ≤ r.2)
      n (pieces.flatMap Piece.text ++ rest) = pieces.flatMap Piece.gap ++ rest := by
  refine withoutFrom_spans (fun r start stop => r.1 ≤ start && stop ≤ r.2) ?_ ?_ ?_ hgaps n rest
  · intro r start stop _ hstart hlt
    simp only [Bool.and_eq_false_iff, decide_eq_false_iff_not]
    omega
  · intro r start stop hlt hstop
    simp only [Bool.and_eq_false_iff, decide_eq_false_iff_not]
    omega
  · intro n p _
    have hlength := p.byteLength_text
    have hgap : withoutFrom (fun start stop =>
        n + byteLength p.gap ≤ start && stop ≤ n + byteLength p.text) n p.gap = p.gap := by
      refine (withoutFrom_congr fun start stop _ hlt hstop => ?_).trans (withoutFrom_false n p.gap)
      simp only [Bool.and_eq_false_iff, decide_eq_false_iff_not]
      omega
    have hbody : withoutFrom (fun start stop =>
        n + byteLength p.gap ≤ start && stop ≤ n + byteLength p.text) (n + byteLength p.gap)
        p.body = [] := by
      refine (withoutFrom_congr fun start stop hstart _ hstop => ?_).trans
        (withoutFrom_true (n + byteLength p.gap) p.body)
      simp only [Bool.and_eq_true, decide_eq_true_eq]
      omega
    refine (withoutFrom_append _ n p.gap p.body).trans ?_
    rw [hgap, hbody, List.append_nil]

end Spans

/-! ## Emptied pieces -/

namespace Piece

/-- The piece with nothing left of what its selection covers. -/
def emptied (p : Piece) : Piece := { p with body := [] }

@[simp] theorem text_emptied (p : Piece) : p.emptied.text = p.gap := List.append_nil _

/-- The selection of an emptied piece is the point behind the gap. -/
theorem selection_emptied (p : Piece) (before before' : List Char) :
    p.emptied.selection before' =
      { p.selection before with
        anchor := endCoord (before' ++ p.gap)
        cursor := endCoord (before' ++ p.gap) } := by
  simp only [p.captures_selection before]
  unfold selection
  rw [text_emptied]
  split
  · rfl
  · rfl

end Piece

namespace Layout

/-- The layout with nothing left of what the selections cover. -/
def emptied (L : Layout) : Layout := { L with pieces := L.pieces.map Piece.emptied }

theorem text_emptied (L : Layout) : L.emptied.text = L.pieces.flatMap Piece.gap ++ L.rest := by
  rw [text, emptied, List.flatMap_map]
  simp only [Piece.text_emptied]

/-- Of the text what no selection covers is left. -/
theorem text_emptied_eq_without (L : Layout) (hproper : L.Proper) :
    L.emptied.text = without (fun start stop => L.selections.any fun x =>
      (x.span L.text).1 ≤ start && stop ≤ (x.span L.text).2) L.text := by
  have hspans : ∀ start stop, (L.selections.any fun x =>
      (x.span L.text).1 ≤ start && stop ≤ (x.span L.text).2) =
        (spansBehind 0 L.pieces).any fun r => r.1 ≤ start && stop ≤ r.2 := by
    intro start stop
    rw [← map_span_selections, List.any_map]
    rfl
  simp only [hspans]
  rw [text_emptied]
  exact (withoutFrom_bodies hproper 0 L.rest).symm

/-- Each selection is a point, so many bytes further to the front as the selections before it
covered. -/
theorem getElem?_selections_emptied (L : Layout) {i : Nat} {x : Selection}
    (hx : L.selections[i]? = some x) :
    ∃ c, L.emptied.selections[i]? = some { x with anchor := c, cursor := c } ∧
      IsPosition L.emptied.text c ∧
      offset L.emptied.text c + ((L.selections.take i).map fun y =>
        (y.span L.text).2 - (y.span L.text).1).sum = (x.span L.text).1 := by
  obtain ⟨before, p, after, rest, rfl, rfl, rfl⟩ := exists_split hx
  have hsum : (((selections ⟨before ++ p :: after, rest⟩).take before.length).map fun y =>
      (y.span (text ⟨before ++ p :: after, rest⟩)).2 -
        (y.span (text ⟨before ++ p :: after, rest⟩)).1).sum =
      byteLength (before.flatMap Piece.body) := by
    have hspans := map_span_selections ⟨before ++ p :: after, rest⟩
    rw [spansBehind_append] at hspans
    have htake := congrArg (List.take before.length) hspans
    rw [← List.map_take, List.take_left' (length_spansBehind 0 before)] at htake
    rw [← sum_spansBehind 0 before, ← htake, List.map_map]
    rfl
  have hget := getElem?_selections_split (before.map Piece.emptied) (after.map Piece.emptied)
    p.emptied rest
  have htext : (⟨before ++ p :: after, rest⟩ : Layout).emptied.text =
      (before.flatMap Piece.gap ++ p.gap) ++ (after.flatMap Piece.gap ++ rest) := by
    rw [text_emptied]
    simp
  have hgaps : (before.map Piece.emptied).flatMap Piece.text = before.flatMap Piece.gap := by
    rw [List.flatMap_map]
    simp only [Piece.text_emptied]
  rw [List.length_map, hgaps, p.selection_emptied (before.flatMap Piece.text)] at hget
  refine ⟨endCoord (before.flatMap Piece.gap ++ p.gap), ?_, ?_, ?_⟩
  · simpa [emptied] using hget
  · exact isPosition_iff.mpr ⟨_, _, htext, rfl⟩
  · rw [hsum, htext, offset_endCoord, text_split, span_selection, byteLength_append,
      Piece.byteLength_flatMap_text]
    omega

end Layout

/-! ## All erasures -/

namespace Document

variable {d : Document} {L : Layout}

/-- **Erasures at all selections** — every piece is emptied, and every tracker follows. -/
theorem relays_eraseAll (h : d.Lays L) {tracker main : Nat} (hmain : main < L.pieces.length)
    (hshown : d.tracked? tracker = some (L.shown (.all main))) :
    (d.eraseAll tracker).1 = .ok () ∧ d.Relays L (d.eraseAll tracker).2 L.emptied := by
  have hview : Layout.View.Valid L.pieces.length (.all main) := hmain
  rw [eraseAll_eq]
  exact relays_editAll h .cut hview hshown

/-- Where the selections cover nothing there is nothing to erase. -/
theorem eraseAll_of_points {tracker : Nat}
    (h : ∀ x ∈ (d.selections tracker).selections, x.isPoint) :
    d.eraseAll tracker = (.ok (), d) := by
  have hpoint : ∀ x ∈ (d.selections tracker).selections, d.erase x.start x.stop = (.ok (), d) := by
    intro x hx
    have hends : x.anchor = x.cursor := of_decide_eq_true (h x hx)
    apply erase_of_le
    rw [Selection.stop, Selection.start, hends, max_self, min_self]
  rw [eraseAll, editAll]
  induction (d.selections tracker).length with
  | zero => rfl
  | succ n ih =>
    rw [editEach]
    split
    · exact ih
    next x hx =>
      rw [hpoint x (List.mem_of_getElem? hx)]
      exact ih

end Document

/-! ## Erasures of a context -/

namespace Scene

variable {s : Scene}

/-- The layout that the tracker of a context shows. -/
theorem Sound.exists_shown (hs : s.Sound)
    (htracked : (s.document.tracked? s.context.tracker).isSome) (hobliging : s.document.Obliging) :
    ∃ L : Layout, s.document.Lays L ∧ s.selections = L.shown (.all s.selections.mainIndex) ∧
      s.selections.mainIndex < L.pieces.length ∧
      s.document.tracked? s.context.tracker = some (L.shown (.all s.selections.mainIndex)) := by
  obtain ⟨L, hlays, hselections, hmain⟩ := hs.exists_lays hobliging
  exact ⟨L, hlays, hselections, hmain, (tracked?_context htracked).trans (congrArg some hselections)⟩

theorem document_perform_edit {α : Type} (hstored : s.context.document < s.editor.store.length)
    (f : Document → Except SelectionError α × Document) :
    ((edit f).perform s).2.document = (f s.document).2 := by
  rw [perform_edit]
  exact (Editor.document_setDocument _ _ _ _).trans (if_pos ⟨rfl, hstored⟩)

/-- An edit of the document of a context that succeeds. -/
theorem perform_edit_of_ok {α : Type} (hstored : s.context.document < s.editor.store.length)
    {f : Document → Except SelectionError α × Document} {a : α} (hok : (f s.document).1 = .ok a) :
    ∃ t, (edit f).perform s = (.ok a, t) ∧ t.document = (f s.document).2 ∧ t.context = s.context := by
  refine ⟨((edit f).perform s).2, Prod.ext ?_ rfl, document_perform_edit hstored f, ?_⟩
  · rw [perform_edit, hok]
    rfl
  · rw [perform_edit]

/-- A context that erases goes on to the layout in which every piece has been emptied. -/
theorem Sound.perform_erase (hs : s.Sound)
    (htracked : (s.document.tracked? s.context.tracker).isSome) (hobliging : s.document.Obliging) :
    ∃ (L : Layout) (t : Scene), s.document.Lays L ∧
      s.selections = L.shown (.all s.selections.mainIndex) ∧ erase.perform s = (.ok (), t) ∧
      t.document.text = L.emptied.text ∧
      t.selections = L.emptied.shown (.all s.selections.mainIndex) := by
  obtain ⟨L, hlays, hselections, hmain, hshown⟩ := hs.exists_shown htracked hobliging
  obtain ⟨hok, hrelays⟩ := Document.relays_eraseAll hlays hmain hshown
  obtain ⟨t, hperform, hdocument, hcontext⟩ := perform_edit_of_ok hs.stored
    (f := (·.eraseAll s.context.tracker)) hok
  refine ⟨L, t, hlays, hselections, hperform, ?_, ?_⟩
  · rw [hdocument]
    exact hrelays.lays.text
  · have hfollows := hrelays.follows s.context.tracker (.all s.selections.mainIndex) hmain hshown
    rw [← hdocument, ← hcontext] at hfollows
    exact Document.selections_of_tracked? hfollows

/-- A context whose selections are points erases nothing. -/
theorem perform_erase_of_points (hstored : s.context.document < s.editor.store.length)
    (hpoints : ∀ x ∈ s.selections.selections, x.isPoint) : erase.perform s = (.ok (), s) := by
  have hnothing : s.document.eraseAll s.context.tracker = (.ok (), s.document) :=
    Document.eraseAll_of_points hpoints
  rw [perform_erase, perform_edit, hnothing]
  exact Prod.ext rfl (congrArg (Scene.mk · s.context) (s.editor.setDocument_self hstored))

/-- **Erasure at all selections takes what they cover** — the text is the old one without the
characters that lie in a selection. The selections are as many as before, with the same main one,
and each is the point where what it covered was, moved to the front by all that the selections
before it covered. Where all of them are points, nothing changes at all. -/
theorem erase_removes (hs : s.Sound) (htracked : (s.document.tracked? s.context.tracker).isSome)
    (hobliging : s.document.Obliging) :
    let text := s.document.text
    let selections := s.selections.selections
    let done := erase.perform s
    done.1 = .ok () ∧
      done.2.document.text = without (fun start stop => selections.any fun x =>
        (x.span text).1 ≤ start && stop ≤ (x.span text).2) text ∧
      done.2.selections.length = s.selections.length ∧
      done.2.selections.mainIndex = s.selections.mainIndex ∧
      (∀ i x, s.selections.get? i = some x → ∃ c,
        done.2.selections.get? i = some { x with anchor := c, cursor := c } ∧
        IsPosition done.2.document.text c ∧
        offset done.2.document.text c + ((selections.take i).map fun y =>
          (y.span text).2 - (y.span text).1).sum = (x.span text).1) ∧
      ((∀ x ∈ selections, x.isPoint) → done.2 = s) := by
  intro text selections done
  obtain ⟨L, t, hlays, hselections, hperform, htext, hnow⟩ := hs.perform_erase htracked hobliging
  have hdone : done = (.ok (), t) := hperform
  have hlist : selections = L.selections := congrArg (·.selections) hselections
  have hold : text = L.text := hlays.text
  refine ⟨?_, ?_, ?_, ?_, ?_, ?_⟩
  · rw [hdone]
  · rw [hdone, htext, hlist, hold]
    exact L.text_emptied_eq_without hlays.proper
  · rw [hdone, hnow, SelectionList.length, SelectionList.length, hselections]
    simp [Layout.shown, Layout.emptied]
  · rw [hdone, hnow]
    rfl
  · intro i x hx
    rw [hselections] at hx
    rw [hdone, htext, hnow, hlist, hold]
    exact L.getElem?_selections_emptied hx
  · intro hpoints
    exact congrArg Prod.snd (perform_erase_of_points hs.stored hpoints)

set_option maxRecDepth 100000 in
/-- The first of three selections covers a line end, the second one nothing, and the third one is a
backward one. -/
theorem erase_removes_over_lines :
    let selected : SelectionList :=
      ⟨[⟨⟨0, 1⟩, ⟨1, 1⟩, []⟩, .point ⟨1, 2⟩, ⟨⟨2, 2⟩, ⟨2, 0⟩, []⟩], 2⟩
    let d : Document :=
      { name := "notes", text := "ab\ncd\nef\n".toList, nextListener := 1
        listeners := [⟨0, .tracker selected⟩] }
    let s : Scene := ⟨{ store := [d] }, { name := "main", document := 0, tracker := 0 }⟩
    let done := erase.perform s
    s.Sound ∧ s.document.Obliging ∧ done.1 = .ok () ∧ done.2.document.text = "ad\n\n".toList ∧
      done.2.selections.mainIndex = 2 ∧
      ∃ c, done.2.selections.get? 2 = some ⟨c, c, []⟩ ∧ offset done.2.document.text c = 3 := by
  intro selected d s done
  have hwithin : selected.Within (IsPosition d.text) := by
    unfold SelectionList.Within IsPosition
    decide
  have hsound : s.Sound := sound_of_tracked (by decide) rfl ⟨by decide, by decide⟩ hwithin
  have hobliging : s.document.Obliging := by
    intro l hl
    rw [List.mem_singleton.mp hl]
    exact Nat.lt_succ_self 2
  obtain ⟨hok, htext, -, hmain, hpoints, -⟩ := erase_removes hsound rfl hobliging
  obtain ⟨c, hget, -, hoffset⟩ := hpoints 2 _ rfl
  have hleft : without (fun start stop => s.selections.selections.any fun x =>
      (x.span s.document.text).1 ≤ start && stop ≤ (x.span s.document.text).2)
      s.document.text = "ad\n\n".toList := by decide +kernel
  have hcovered : (((s.selections.selections.take 2).map fun y =>
      (y.span s.document.text).2 - (y.span s.document.text).1).sum) = 3 := by cbv
  have hstart : offset s.document.text (Selection.start ⟨⟨2, 2⟩, ⟨2, 0⟩, []⟩) = 6 := by cbv
  refine ⟨hsound, hobliging, hok, htext.trans hleft, hmain, c, hget, ?_⟩
  rw [hcovered] at hoffset
  exact Nat.add_right_cancel (hoffset.trans hstart)

set_option maxRecDepth 100000 in
/-- With a listener that fails, the first selection still covers what it covered. -/
theorem erase_stops_short :
    let selected : SelectionList := ⟨[⟨⟨0, 0⟩, ⟨0, 1⟩, []⟩, ⟨⟨0, 2⟩, ⟨0, 3⟩, []⟩], 0⟩
    let d : Document :=
      { name := "notes", text := "abc\n".toList, nextListener := 2
        listeners := [⟨0, .tracker selected⟩,
          ⟨1, .observer "guard" fun _ => { failure := some .empty }⟩] }
    let s : Scene := ⟨{ store := [d] }, { name := "main", document := 0, tracker := 0 }⟩
    let done := erase.perform s
    s.Sound ∧ s.document.tracked? s.context.tracker = some selected ∧
      done.2.document.text = "ab\n".toList ∧
      done.2.document.text ≠ without (fun start stop => s.selections.selections.any fun x =>
        (x.span s.document.text).1 ≤ start && stop ≤ (x.span s.document.text).2)
        s.document.text := by
  intro selected d s done
  have hwithin : selected.Within (IsPosition d.text) := by
    unfold SelectionList.Within IsPosition
    decide
  have hsound : s.Sound := sound_of_tracked (by decide) rfl ⟨by decide, by decide⟩ hwithin
  have htext : (erase.perform s).2.document.text = "ab\n".toList := by cbv
  have hwithout : without (fun start stop => s.selections.selections.any fun x =>
      (x.span s.document.text).1 ≤ start && stop ≤ (x.span s.document.text).2)
      s.document.text = "b\n".toList := by cbv
  refine ⟨hsound, rfl, htext, ?_⟩
  rw [hwithout]
  exact fun h => absurd (htext.symm.trans h) (by decide)

end Scene

end ModalEdit
