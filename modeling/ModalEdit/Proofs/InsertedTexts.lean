import ModalEdit.Proofs.PerSelection

/-!
# Texts inserted at all selections

A text for each selection, inserted one after the other from the last selection to the first while
the tracker follows every step, comes to the same as all of them put at once where the selections
were in the text that there was (`insert_splices`). `Text.splice` is that text: it goes once through
the old text and puts at each byte offset what belongs there.

Both sides are told from the layout of the selections. An insertion changes one piece
(`relays_insertText`), so the insertions change every piece in a way of its own; and what is spliced
into a text of pieces is spliced into each of them (`splice_pieces`).

It takes listeners that do not fail: a failure leaves the selections that are still to come without
their texts (`insert_stops_short`).
-/

namespace ModalEdit

open Text

/-! ## Splicing -/

namespace Text

/-- What is put at byte `n`. -/
def insertedAt (insertions : List (Nat × List Char)) (n : Nat) : List Char :=
  (insertions.filter fun insertion => insertion.1 = n).flatMap (·.2)

/-- A text that begins at byte `n`, with everything put where it belongs. -/
def spliceFrom (insertions : List (Nat × List Char)) : Nat → List Char → List Char
  | n, [] => insertedAt insertions n
  | n, c :: cs => insertedAt insertions n ++ c :: spliceFrom insertions (n + c.utf8Size) cs

/-- The text with every insertion at its byte offset, all at once. -/
def splice (insertions : List (Nat × List Char)) (text : List Char) : List Char :=
  spliceFrom insertions 0 text

variable {first second : List (Nat × List Char)} {n : Nat}

theorem insertedAt_append :
    insertedAt (first ++ second) n = insertedAt first n ++ insertedAt second n := by
  simp [insertedAt]

theorem insertedAt_of_ne (h : ∀ insertion ∈ first, insertion.1 ≠ n) : insertedAt first n = [] := by
  have hnone : first.filter (fun insertion => insertion.1 = n) = [] := by simpa using h
  rw [insertedAt, hnone, List.flatMap_nil]

/-- What belongs before byte `n` is not put behind it. -/
theorem spliceFrom_behind (hfirst : ∀ insertion ∈ first, insertion.1 < n) (text : List Char) :
    spliceFrom (first ++ second) n text = spliceFrom second n text := by
  induction text generalizing n with
  | nil =>
    rw [spliceFrom, spliceFrom, insertedAt_append,
      insertedAt_of_ne fun insertion hmem => (hfirst insertion hmem).ne, List.nil_append]
  | cons c cs ih =>
    have hlater : ∀ insertion ∈ first, insertion.1 < n + c.utf8Size := fun insertion hmem =>
      Nat.lt_add_right _ (hfirst insertion hmem)
    rw [spliceFrom, spliceFrom, ih hlater, insertedAt_append,
      insertedAt_of_ne fun insertion hmem => (hfirst insertion hmem).ne, List.nil_append]

/-- What belongs before a place or there is put into the text before it, the rest into the text
behind it. -/
theorem spliceFrom_append {a : List Char}
    (hfirst : ∀ insertion ∈ first, insertion.1 ≤ n + byteLength a)
    (hsecond : ∀ insertion ∈ second, n + byteLength a ≤ insertion.1) (b : List Char) :
    spliceFrom (first ++ second) n (a ++ b) =
      spliceFrom first n a ++ spliceFrom second (n + byteLength a) b := by
  induction a generalizing n with
  | nil =>
    -- what belongs right here comes before what belongs behind it
    simp only [byteLength_nil, Nat.add_zero] at hfirst ⊢
    cases b with
    | nil => exact insertedAt_append
    | cons c cs =>
      have hlater : ∀ insertion ∈ first, insertion.1 < n + c.utf8Size := fun insertion hmem =>
        (hfirst insertion hmem).trans_lt (Nat.lt_add_of_pos_right c.utf8Size_pos)
      rw [List.nil_append, spliceFrom, spliceFrom, spliceFrom, spliceFrom_behind hlater,
        insertedAt_append, List.append_assoc]
  | cons c cs ih =>
    simp only [byteLength_cons, ← Nat.add_assoc] at hfirst hsecond ⊢
    have hnone : ∀ insertion ∈ second, insertion.1 ≠ n := fun insertion hmem => by
      have := hsecond insertion hmem
      have := c.utf8Size_pos
      omega
    rw [List.cons_append, spliceFrom, spliceFrom, ih hfirst hsecond, insertedAt_append,
      insertedAt_of_ne hnone, List.append_nil, List.append_assoc, List.cons_append]

theorem spliceFrom_nil (n : Nat) (text : List Char) : spliceFrom [] n text = text := by
  induction text generalizing n with
  | nil => rfl
  | cons c cs ih => rw [spliceFrom, ih]; rfl

/-- A text that belongs at the end. -/
theorem spliceFrom_end (n : Nat) (a added : List Char) :
    spliceFrom [(n + byteLength a, added)] n a = a ++ added := by
  have hnone : ∀ insertion ∈ ([] : List (Nat × List Char)), insertion.1 ≤ n + byteLength a := by
    simp
  have hput := spliceFrom_append hnone
    (List.forall_mem_singleton.mpr (le_refl (n + byteLength a, added).1)) []
  rw [List.append_nil, List.nil_append, spliceFrom_nil] at hput
  rw [hput, spliceFrom, insertedAt]
  simp

/-- A part of a text with one insertion in it, and everything else behind it. -/
theorem spliceFrom_part (n : Nat) (lead trail added : List Char) {later : List (Nat × List Char)}
    (hlater : ∀ insertion ∈ later, n + byteLength (lead ++ trail) ≤ insertion.1)
    (rest : List Char) :
    spliceFrom ((n + byteLength lead, added) :: later) n (lead ++ trail ++ rest) =
      lead ++ added ++ trail ++ spliceFrom later (n + byteLength (lead ++ trail)) rest := by
  rw [byteLength_append, ← Nat.add_assoc] at hlater ⊢
  have hbehind : ∀ insertion ∈ later, n + byteLength lead ≤ insertion.1 := fun insertion hmem =>
    (Nat.le_add_right _ _).trans (hlater insertion hmem)
  calc spliceFrom ([(n + byteLength lead, added)] ++ later) n (lead ++ trail ++ rest)
      = lead ++ added ++ spliceFrom ([] ++ later) (n + byteLength lead) (trail ++ rest) := by
        rw [List.append_assoc, spliceFrom_append (by simp) hbehind, spliceFrom_end,
          List.nil_append]
    _ = lead ++ added ++ trail ++
          spliceFrom later (n + byteLength lead + byteLength trail) rest := by
        rw [spliceFrom_append (by simp) hlater, spliceFrom_nil, List.append_assoc (lead ++ added)]

end Text

/-! ## Splicing into pieces -/

namespace Piece

variable {p : Piece} {position : InsertPosition} {added before : List Char}

/-- The part of a piece that lies before the place beside its selection. -/
def lead (position : InsertPosition) (p : Piece) : List Char :=
  match position with
  | .before => p.gap
  | .after => p.text

/-- The part of a piece that lies behind the place beside its selection. -/
def trail (position : InsertPosition) (p : Piece) : List Char :=
  match position with
  | .before => p.body
  | .after => []

theorem text_eq (position : InsertPosition) (p : Piece) :
    p.text = p.lead position ++ p.trail position := by
  cases position with
  | before => rfl
  | after => exact (List.append_nil _).symm

theorem text_inserted (position : InsertPosition) (added : List Char) (p : Piece) :
    (p.inserted position added).text = p.lead position ++ added ++ p.trail position := by
  cases position with
  | before => rfl
  | after =>
    unfold inserted
    dsimp only
    split
    next hbody => simp [text, lead, trail, hbody]
    next => simp [text, lead, trail]

theorem placeOf_selection (position : InsertPosition) (p : Piece) (before : List Char) :
    Document.placeOf position (p.selection before) = endCoord (before ++ p.lead position) := by
  cases position with
  | before => exact p.start_selection before
  | after => exact p.stop_selection before

theorem offset_placeOf (position : InsertPosition) (p : Piece) (before rest : List Char) :
    offset (before ++ p.text ++ rest) (Document.placeOf position (p.selection before)) =
      byteLength before + byteLength (p.lead position) := by
  have htext : before ++ p.text ++ rest =
      (before ++ p.lead position) ++ (p.trail position ++ rest) := by
    rw [p.text_eq position]
    simp
  rw [p.placeOf_selection, htext, offset_endCoord, byteLength_append]

end Piece

section Pieces

variable {before rest : List Char} {pieces : List Piece} {added : Nat → List Char}

/-- The places beside selections that come behind a text lie behind it. -/
theorem le_offset_placeOf (position : InsertPosition) :
    ∀ s ∈ selectionsBehind before pieces, byteLength before ≤
      offset (before ++ (pieces.flatMap Piece.text ++ rest)) (Document.placeOf position s) := by
  induction pieces generalizing before with
  | nil => simp [selectionsBehind]
  | cons p pieces ih =>
    have htext : before ++ ((p :: pieces).flatMap Piece.text ++ rest) =
        before ++ p.text ++ (pieces.flatMap Piece.text ++ rest) := by
      simp
    rw [htext]
    refine List.forall_mem_cons.mpr ⟨?_, fun s hs => ?_⟩
    · rw [p.offset_placeOf]
      exact Nat.le_add_right _ _
    · have hlater := ih s hs
      rw [byteLength_append] at hlater
      omega

/-- **Splicing into pieces** — what is put beside each selection is put into its piece. -/
theorem splice_pieces (before : List Char) (position : InsertPosition) {text : List Char}
    (htext : text = before ++ (pieces.flatMap Piece.text ++ rest)) :
    spliceFrom ((selectionsBehind before pieces).mapIdx fun i s =>
        (offset text (Document.placeOf position s), added i))
      (byteLength before) (pieces.flatMap Piece.text ++ rest) =
      (pieces.mapIdx fun i => Piece.inserted position (added i)).flatMap Piece.text ++ rest := by
  induction pieces generalizing before added with
  | nil => exact spliceFrom_nil _ _
  | cons p pieces ih =>
    have hnext : text = (before ++ p.text) ++ (pieces.flatMap Piece.text ++ rest) := by
      rw [htext]
      simp
    have hplace := p.offset_placeOf position before (pieces.flatMap Piece.text ++ rest)
    rw [← hnext] at hplace
    have hlater : ∀ insertion ∈ (selectionsBehind (before ++ p.text) pieces).mapIdx
        fun i s => (offset text (Document.placeOf position s), added (i + 1)),
        byteLength before + byteLength p.text ≤ insertion.1 := by
      intro insertion hmem
      obtain ⟨i, hi, rfl⟩ := List.mem_mapIdx.mp hmem
      rw [← byteLength_append, hnext]
      exact le_offset_placeOf position _ (List.getElem_mem hi)
    have hpart := spliceFrom_part (byteLength before) (p.lead position) (p.trail position) (added 0)
      (p.text_eq position ▸ hlater) (pieces.flatMap Piece.text ++ rest)
    have hrest := @ih (fun i => added (i + 1)) (before ++ p.text) hnext
    rw [byteLength_append, p.text_eq position] at hrest
    rw [selectionsBehind, List.mapIdx_cons, List.mapIdx_cons, List.flatMap_cons, List.flatMap_cons,
      hplace, p.text_inserted, p.text_eq position, List.append_assoc _ _ rest, hpart, hrest,
      ← List.append_assoc]

end Pieces

/-! ## What the selections cover -/

/-- **`s.Covers text n body`** — the selection lies in the text and covers `body`, which begins at
byte `n`. -/
structure Selection.Covers (s : Selection) (text : List Char) (n : Nat) (body : List Char) : Prop where
  ends : IsPosition text s.anchor ∧ IsPosition text s.cursor
  start : offset text s.start = n
  stop : offset text s.stop = n + byteLength body
  content : content text s.start s.stop = body

/-- **`Takes position added shift x text x' text'`** — `x'` in the new text is what becomes of `x`
in the old one when `added` is put beside it and `shift` bytes come before that. -/
structure Selection.Takes (position : InsertPosition) (added : List Char) (shift : Nat)
    (x : Selection) (text : List Char) (x' : Selection) (text' : List Char) : Prop where
  direction : x'.isBackward = x.isBackward
  captures : x'.captures = x.captures
  covers : ∃ n body, x.Covers text n body ∧
    match position with
    | .before => x'.Covers text' (n + shift + byteLength added) body
    | .after =>
      if x.isPoint then x'.isPoint ∧ x'.Covers text' (n + shift + byteLength added) []
      else x'.Covers text' (n + shift) (body ++ added)

namespace Piece

variable {p : Piece}

theorem covers_selection (p : Piece) (before rest : List Char) :
    (p.selection before).Covers (before ++ p.text ++ rest) (byteLength (before ++ p.gap)) p.body := by
  have htext : before ++ p.text ++ rest = before ++ p.gap ++ p.body ++ rest := by simp [text]
  have hstart : offset (before ++ p.text ++ rest) (p.selection before).start =
      byteLength (before ++ p.gap) := by
    rw [p.start_selection, htext, List.append_assoc, offset_endCoord]
  have hstop : offset (before ++ p.text ++ rest) (p.selection before).stop =
      byteLength (before ++ p.gap) + byteLength p.body := by
    rw [p.stop_selection, offset_endCoord, text, ← List.append_assoc, byteLength_append]
  refine ⟨?_, hstart, hstop, ?_⟩
  · rw [← Selection.ends_iff, p.start_selection, p.stop_selection]
    exact ⟨isPosition_iff.mpr ⟨before ++ p.gap, p.body ++ rest, by simp [text], rfl⟩,
      isPosition_iff.mpr ⟨before ++ p.text, rest, rfl, rfl⟩⟩
  · rw [content, hstart, hstop, min_eq_left (Nat.le_add_right _ _),
      max_eq_right (Nat.le_add_right _ _), htext, slice_append]

theorem start_lt_stop (before : List Char) (h : p.body ≠ []) :
    endCoord (before ++ p.gap) < endCoord (before ++ p.text) := by
  rw [text, ← List.append_assoc]
  exact endCoord_lt_append _ h

theorem isPoint_selection (p : Piece) (before : List Char) :
    (p.selection before).isPoint = decide (p.body = []) := by
  by_cases hbody : p.body = []
  · have htext : p.text = p.gap := by rw [text, hbody, List.append_nil]
    simp [selection, Selection.isPoint, htext, hbody]
  · have hlt := start_lt_stop before hbody
    unfold selection Selection.isPoint
    split <;> simp [hbody, hlt.ne, hlt.ne']

theorem isBackward_selection (p : Piece) (before : List Char) :
    (p.selection before).isBackward = (p.isBackward && decide (p.body ≠ [])) := by
  by_cases hbody : p.body = []
  · have htext : p.text = p.gap := by rw [text, hbody, List.append_nil]
    simp [selection, Selection.isBackward, htext, hbody]
  · have hlt := start_lt_stop before hbody
    unfold selection Selection.isBackward
    split <;> simp_all [hlt.le]

end Piece

/-- The number of bytes in the first texts, as many as that. -/
def lengthBelow (added : Nat → List Char) (n : Nat) : Nat :=
  ((List.range n).map fun i => byteLength (added i)).sum

theorem lengthBelow_succ (added : Nat → List Char) (n : Nat) :
    lengthBelow added (n + 1) = lengthBelow added n + byteLength (added n) := by
  simp [lengthBelow, List.range_succ]

namespace Piece

theorem byteLength_inserted (position : InsertPosition) (added : List Char) (p : Piece) :
    byteLength (p.inserted position added).text = byteLength p.text + byteLength added := by
  rw [text_inserted, p.text_eq position]
  simp only [byteLength_append]
  omega

/-- Pieces grow by what is inserted into them. -/
theorem byteLength_mapIdx_inserted (position : InsertPosition) (added : Nat → List Char)
    (pieces : List Piece) :
    byteLength ((pieces.mapIdx fun i => Piece.inserted position (added i)).flatMap text) =
      byteLength (pieces.flatMap text) + lengthBelow added pieces.length := by
  induction pieces using List.reverseRecOn with
  | nil => rfl
  | append_singleton pieces p ih =>
    rw [List.mapIdx_concat, List.flatMap_append, List.flatMap_append, byteLength_append,
      byteLength_append, ih, List.length_append, List.length_singleton, lengthBelow_succ]
    simp only [List.flatMap_cons, List.flatMap_nil, List.append_nil, byteLength_inserted]
    omega

end Piece

namespace Piece

theorem captures_selection (p : Piece) (before : List Char) :
    (p.selection before).captures = p.captures := by
  unfold selection
  split <;> rfl

/-- Direction and captures stay, and what covers something goes on to do so. -/
theorem inserted_looksLike (position : InsertPosition) (added : List Char) (p : Piece) :
    (p.inserted position added).isBackward = p.isBackward ∧
      (p.inserted position added).captures = p.captures ∧
      ((p.inserted position added).body = [] ↔ p.body = []) := by
  cases position with
  | before => exact ⟨rfl, rfl, .rfl⟩
  | after =>
    by_cases hbody : p.body = []
    · rw [inserted_of_point added hbody]
      exact ⟨rfl, rfl, .rfl⟩
    · rw [inserted_of_body added hbody]
      exact ⟨rfl, rfl, by simp [hbody]⟩

/-- What becomes of the selection of a piece. -/
theorem takes (position : InsertPosition) (added : List Char) (p : Piece)
    {before before' : List Char} {shift : Nat}
    (hbefore : byteLength before' = byteLength before + shift) (rest rest' : List Char) :
    (p.selection before).Takes position added shift (before ++ p.text ++ rest)
      ((p.inserted position added).selection before')
      (before' ++ (p.inserted position added).text ++ rest') := by
  obtain ⟨hbackward, hcaptures, hpoint⟩ := p.inserted_looksLike position added
  have hold := p.covers_selection before rest
  have hnew := (p.inserted position added).covers_selection before' rest'
  have hgap : byteLength (before' ++ p.gap) = byteLength (before ++ p.gap) + shift := by
    simp only [byteLength_append]
    omega
  have hadded : byteLength (before' ++ (p.gap ++ added)) =
      byteLength (before ++ p.gap) + shift + byteLength added := by
    rw [← List.append_assoc, byteLength_append, hgap]
  refine ⟨?_, ?_, _, _, hold, ?_⟩
  · rw [isBackward_selection, isBackward_selection, hbackward]
    simp only [ne_eq, hpoint]
  · rw [captures_selection, captures_selection, hcaptures]
  cases position with
  | before => exact hadded ▸ hnew
  | after =>
    simp only [isPoint_selection, hpoint, decide_eq_true_eq]
    by_cases hbody : p.body = []
    · rw [if_pos hbody]
      rw [inserted_of_point added hbody] at hnew ⊢
      exact ⟨hbody, hadded ▸ hbody ▸ hnew⟩
    · rw [if_neg hbody]
      rw [inserted_of_body added hbody] at hnew ⊢
      exact hgap ▸ hnew

end Piece

/-! ## All insertions -/

namespace Layout

/-- Every piece takes its text. -/
theorem upTo_length (L : Layout) (f : Nat → Piece → Piece) :
    L.upTo L.pieces.length f = ⟨L.pieces.mapIdx f, L.rest⟩ := by
  rw [upTo]
  congr 1
  refine List.ext_getElem (by simp) fun i hi _ => ?_
  have hlt : i < L.pieces.length := by simpa using hi
  simp [hlt]

theorem takes_upTo (L : Layout) (position : InsertPosition) (added : Nat → List Char) {i : Nat}
    {x : Selection} (hx : L.selections[i]? = some x) :
    let L' := L.upTo L.pieces.length fun i => Piece.inserted position (added i)
    ∃ x', L'.selections[i]? = some x' ∧
      x.Takes position (added i) (lengthBelow added i) L.text x' L'.text := by
  obtain ⟨before, p, after, rest, rfl, rfl, rfl⟩ := exists_split hx
  dsimp only
  rw [upTo_length, List.mapIdx_append, List.mapIdx_cons, Nat.zero_add, text_split, text_split]
  have hlength : (before.mapIdx fun i => Piece.inserted position (added i)).length =
      before.length := List.length_mapIdx
  have hget := getElem?_selections_split
    (before.mapIdx fun i => Piece.inserted position (added i))
    (after.mapIdx fun i => Piece.inserted position (added (i + 1 + before.length)))
    (p.inserted position (added before.length)) rest
  rw [hlength] at hget
  exact ⟨_, hget, p.takes position _ (Piece.byteLength_mapIdx_inserted position added before) _ _⟩

end Layout

namespace Document

variable {d : Document} {L : Layout}

/-- **Insertions at all selections** — every piece takes its text, and every tracker follows. -/
theorem relays_insertAll (h : d.Lays L) {tracker main : Nat} (hmain : main < L.pieces.length)
    (hshown : d.tracked? tracker = some (L.shown (.all main))) {texts : List String} {last : String}
    (hlast : texts.getLast? = some last) (position : InsertPosition) :
    (d.insertAll tracker texts position).1 = .ok () ∧
      d.Relays L (d.insertAll tracker texts position).2
        (L.upTo L.pieces.length fun i => Piece.inserted position (texts.getD i last).toList) := by
  have hlength : (L.shown (.all main)).length = L.pieces.length := L.length_selections
  rw [insertAll, hlast]
  dsimp only
  rw [editAll, selections_of_tracked? hshown, hlength]
  have hedit : ∀ {d : Document} {L : Layout} {index : Nat} {s : Selection}, d.Lays L →
      L.selections[index]? = some s →
      (d.insertText (placeOf position s) (texts.getD index last).toList).1 = .ok () ∧
        d.Relays L (d.insertText (placeOf position s) (texts.getD index last).toList).2
          (L.modify index (Piece.inserted position (texts.getD index last).toList)) :=
    fun h hs => relays_insertText h position _ hs
  exact relays_editEach hedit h hmain le_rfl hshown

end Document

/-! ## Insertions of a context -/

namespace Scene

variable {s : Scene}

/-- A context that inserts goes on to the layout in which every piece has taken its text. -/
theorem Sound.perform_insert (hs : s.Sound)
    (htracked : (s.document.tracked? s.context.tracker).isSome) (hobliging : s.document.Obliging)
    {texts : List String} {last : String} (hlast : texts.getLast? = some last)
    (position : InsertPosition) :
    ∃ (L : Layout) (t : Scene), s.document.text = L.text ∧
      s.selections = L.shown (.all s.selections.mainIndex) ∧
      (insert texts position).perform s = (.ok (), t) ∧
      let L' := L.upTo L.pieces.length fun i => Piece.inserted position (texts.getD i last).toList
      t.document.text = L'.text ∧ t.selections = L'.shown (.all s.selections.mainIndex) := by
  obtain ⟨L, hlays, hselections, hmain⟩ := hs.exists_lays hobliging
  have hshown : s.document.tracked? s.context.tracker =
      some (L.shown (.all s.selections.mainIndex)) :=
    (tracked?_context htracked).trans (congrArg some hselections)
  have hperform := perform_edit (·.insertAll s.context.tracker texts position) s
  obtain ⟨hok, hrelays⟩ := Document.relays_insertAll hlays hmain hshown hlast position
  generalize s.document.insertAll s.context.tracker texts position = inserted at *
  obtain ⟨result, d⟩ := inserted
  dsimp only at hok hperform hrelays
  subst hok
  have hdocument : (s.editor.setDocument s.context.document d).document s.context.document = d :=
    (Editor.document_setDocument _ _ _ _).trans (if_pos ⟨rfl, hs.stored⟩)
  refine ⟨L, _, hlays.text, hselections, hperform, ?_, ?_⟩
  · exact (congrArg Document.text hdocument).trans hrelays.lays.text
  · have hfollows := hrelays.follows s.context.tracker (.all s.selections.mainIndex) hmain hshown
    exact (congrArg (·.selections s.context.tracker) hdocument).trans
      (Document.selections_of_tracked? hfollows)

/-- **Insertion at all selections is one splice** — the text is the old one with the text of every
selection at the place beside it, and the selections are the old ones, each moved behind what comes
before it and covering what is inserted behind it, unless it covers nothing. -/
theorem insert_splices (hs : s.Sound) (htracked : (s.document.tracked? s.context.tracker).isSome)
    (hobliging : s.document.Obliging) {texts : List String} (htexts : texts ≠ [])
    (position : InsertPosition) :
    let added (i : Nat) := (texts.getD i (texts.getLast htexts)).toList
    let done := (insert texts position).perform s
    done.1 = .ok () ∧
      done.2.document.text = splice (s.selections.selections.mapIdx fun i x =>
        (offset s.document.text (Document.placeOf position x), added i)) s.document.text ∧
      done.2.selections.length = s.selections.length ∧
      done.2.selections.mainIndex = s.selections.mainIndex ∧
      ∀ i x, s.selections.get? i = some x → ∃ x', done.2.selections.get? i = some x' ∧
        x.Takes position (added i) (lengthBelow added i) s.document.text x'
          done.2.document.text := by
  intro added done
  obtain ⟨L, t, htext, hselections, hperform, htext', hselections'⟩ :=
    hs.perform_insert htracked hobliging (List.getLast?_eq_some_getLast htexts) position
  have hdone : done = (.ok (), t) := hperform
  rw [hdone]
  dsimp only
  have hlist : s.selections.selections = L.selections := congrArg (·.selections) hselections
  rw [htext', hselections', htext, hlist]
  refine ⟨rfl, ?_, ?_, rfl, fun i x hx => ?_⟩
  · rw [Layout.upTo_length]
    exact (splice_pieces [] position rfl).symm
  · rw [SelectionList.length, SelectionList.length, hlist, Layout.shown, Layout.length_selections,
      Layout.length_selections, Layout.upTo_length, List.length_mapIdx]
  · rw [hselections] at hx
    exact L.takes_upTo position added hx

/-- A document alone in an editor, with the one context that is on it. -/
theorem sound_of_tracked {d : Document} {selected : SelectionList} {name : String}
    (hissued : ∀ l ∈ d.listeners, l.id < d.nextListener) (htracked : d.tracked? 0 = some selected)
    (hwell : selected.WellFormed) (hwithin : selected.Within (IsPosition d.text)) :
    Sound ⟨{ store := [d] }, { name, document := 0, tracker := 0 }⟩ := by
  obtain rfl : d.selections 0 = selected := Document.selections_of_tracked? htracked
  exact ⟨Nat.zero_lt_one, hissued, hwell, hwithin⟩

set_option maxRecDepth 100000 in
/-- Two texts for three selections, the last of which is a backward one. -/
theorem insert_splices_on_lines :
    let selected : SelectionList :=
      ⟨[⟨⟨0, 0⟩, ⟨0, 1⟩, []⟩, .point ⟨1, 0⟩, ⟨⟨1, 2⟩, ⟨1, 1⟩, []⟩], 1⟩
    let d : Document :=
      { name := "notes", text := "ab\ncd\n".toList, nextListener := 1
        listeners := [⟨0, .tracker selected⟩] }
    let s : Scene := ⟨{ store := [d] }, { name := "main", document := 0, tracker := 0 }⟩
    let done := (insert ["x\n", "y"] .after).perform s
    s.Sound ∧ s.document.Obliging ∧ done.1 = .ok () ∧
      done.2.document.text = "ax\nb\nycdy\n".toList ∧
      ∃ x', done.2.selections.get? 2 = some x' ∧
        Selection.Takes .after ['y'] 3 ⟨⟨1, 2⟩, ⟨1, 1⟩, []⟩ s.document.text x'
          done.2.document.text := by
  intro selected d s done
  have hwithin : selected.Within (IsPosition d.text) := by
    unfold SelectionList.Within IsPosition
    decide
  have hsound : s.Sound := sound_of_tracked (by decide) rfl ⟨by decide, by decide⟩ hwithin
  have hobliging : s.document.Obliging := by
    intro l hl
    rw [List.mem_singleton.mp hl]
    exact Nat.one_lt_succ_succ 1
  obtain ⟨hok, htext, -, -, htakes⟩ :=
    insert_splices hsound rfl hobliging (List.cons_ne_nil "x\n" ["y"]) .after
  exact ⟨hsound, hobliging, hok, htext.trans (by cbv), htakes 2 _ rfl⟩

set_option maxRecDepth 100000 in
/-- With a listener that fails, only the last selection has its text. -/
theorem insert_stops_short :
    let points : SelectionList := ⟨[.point ⟨0, 0⟩, .point ⟨0, 1⟩], 0⟩
    let d : Document :=
      { name := "notes", text := "ab\n".toList, nextListener := 2
        listeners := [⟨0, .tracker points⟩,
          ⟨1, .observer "guard" fun _ => { failure := some .empty }⟩] }
    let s : Scene := ⟨{ store := [d] }, { name := "main", document := 0, tracker := 0 }⟩
    let done := (insert ["x"] .before).perform s
    s.Sound ∧ s.document.tracked? s.context.tracker = some points ∧
      done.2.document.text = "axb\n".toList ∧
      done.2.document.text ≠ splice (s.selections.selections.mapIdx fun i x =>
        (offset s.document.text (Document.placeOf .before x), (["x"].getD i "x").toList))
        s.document.text := by
  intro points d s done
  have hwithin : points.Within (IsPosition d.text) := by
    unfold SelectionList.Within IsPosition
    decide
  have hsound : s.Sound := sound_of_tracked (by decide) rfl ⟨by decide, by decide⟩ hwithin
  have htext : ((insert ["x"] .before).perform s).2.document.text = "axb\n".toList := by cbv
  have hsplice : splice (s.selections.selections.mapIdx fun i x =>
      (offset s.document.text (Document.placeOf .before x), (["x"].getD i "x").toList))
      s.document.text = "xaxb\n".toList := by cbv
  refine ⟨hsound, rfl, htext, ?_⟩
  rw [hsplice]
  exact fun h => absurd (htext.symm.trans h) (by decide)

end Scene

end ModalEdit
