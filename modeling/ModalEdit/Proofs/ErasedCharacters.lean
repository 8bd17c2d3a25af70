import ModalEdit.Proofs.ErasedTexts
import ModalEdit.Proofs.Stepping

/-!
# Characters erased before all selections

One character is erased before each selection, the last selection first, and by the end every
character is gone that stood right before a selection in the text that there was, and no other
(`erase_before_removes`).

An erasure takes the last character of one gap. If there is nothing more in the gap, the selection
comes to touch the one before it, the tracker merges the two, and all later indices mean other
selections than before. The loop does not notice: it walks towards the front, so the merged selection
is the one that is next, and it starts where that one started. `joinPieces` says what the tracker
makes of pieces some of which have lost their gap; the loop has joined what is behind it and has not
touched what is before it (`Presents.editEach_eraseBefore`).

It takes listeners that do not fail: a failure leaves the selections that are still to come with the
character before them (`erase_before_stops_short`).
-/

namespace ModalEdit

open Text

/-! ## Pieces that have lost their gap -/

namespace Piece

variable {p q : Piece} {before : List Char}

/-- The piece without the last character before its selection. -/
def shortened (p : Piece) : Piece := { p with gap := p.gap.dropLast }

/-- Two pieces as one. What is between the selections is not looked at; the direction is that of the
first one, if it covers anything. -/
def joined (p q : Piece) : Piece :=
  { p with body := p.body ++ q.body, isBackward := p.isBackward && p.body ≠ [] }

/-- The piece in front of others. If there is nothing between it and the next one, they become
one. -/
def onto (p : Piece) : List Piece → List Piece
  | [] => [p]
  | q :: rest => if q.gap = [] then p.joined q :: rest else p :: q :: rest

theorem onto_of_touching {rest : List Piece} (h : q.gap = []) :
    p.onto (q :: rest) = p.joined q :: rest := if_pos h

theorem onto_of_apart {rest : List Piece} (h : q.gap ≠ []) : p.onto (q :: rest) = p :: q :: rest :=
  if_neg h

theorem text_joined (h : q.gap = []) : (p.joined q).text = p.text ++ q.text := by
  simp [text, joined, h]

theorem joined_joined (p q r : Piece) : (p.joined q).joined r = p.joined (q.joined r) := by
  have hbackward : ((p.joined q).isBackward && decide ((p.joined q).body ≠ [])) =
      (p.joined (q.joined r)).isBackward := by
    by_cases hbody : p.body = []
    · simp [joined, hbody]
    · simp [joined, hbody]
  have hbody : (p.joined q).body ++ r.body = (p.joined (q.joined r)).body := List.append_assoc _ _ _
  rw [joined, hbackward, hbody]
  rfl

/-- The selections of two pieces, merged, are that of the joined piece. -/
theorem merge_selection (h : q.gap = []) :
    (p.selection before).merge (q.selection (before ++ p.text)) = (p.joined q).selection before := by
  have hstart : min (p.selection before).start (q.selection (before ++ p.text)).start =
      endCoord (before ++ p.gap) := by
    rw [start_selection, start_selection, h, List.append_nil]
    exact min_eq_left (p.start_le_stop before)
  have hstop : max (p.selection before).stop (q.selection (before ++ p.text)).stop =
      endCoord (before ++ (p.joined q).text) := by
    rw [stop_selection, stop_selection, text_joined h, ← List.append_assoc]
    rw [endCoord_append (before ++ p.text)]
    exact max_eq_right (Coord.le_advance _ _)
  have hbackward : (p.selection before).isBackward = (p.joined q).isBackward :=
    p.isBackward_selection before
  rw [Selection.merge, hstart, hstop, hbackward, captures_selection]
  rfl

end Piece

/-- Pieces such that there is something between any two of their selections: pieces without gap are
joined to the ones before them. -/
def joinPieces (pieces : List Piece) : List Piece := pieces.foldr Piece.onto []

section Joining

variable {p q : Piece} {pieces front rest : List Piece}

theorem joinPieces_cons (p : Piece) (pieces : List Piece) :
    joinPieces (p :: pieces) = p.onto (joinPieces pieces) := rfl

theorem onto_of_gap (h : ∀ q ∈ pieces.head?, q.gap ≠ []) : p.onto pieces = p :: pieces := by
  cases pieces with
  | nil => rfl
  | cons q rest => exact Piece.onto_of_apart (h q rfl)

/-- What a piece becomes begins as the piece does. -/
theorem exists_onto (p : Piece) (pieces : List Piece) :
    ∃ q rest, p.onto pieces = q :: rest ∧ p.shortened.onto pieces = q.shortened :: rest ∧
      q.gap = p.gap := by
  cases pieces with
  | nil => exact ⟨p, [], rfl, rfl, rfl⟩
  | cons q rest =>
    by_cases hq : q.gap = []
    · exact ⟨p.joined q, rest, Piece.onto_of_touching hq, Piece.onto_of_touching hq, rfl⟩
    · exact ⟨p, q :: rest, Piece.onto_of_apart hq, Piece.onto_of_apart hq, rfl⟩

/-- Joining from the left comes to the same as joining from the right. -/
theorem onto_joined (h : q.gap = []) (rest : List Piece) :
    (p.joined q).onto rest = p.onto (q.onto rest) := by
  cases rest with
  | nil => exact (Piece.onto_of_touching h).symm
  | cons r rest =>
    by_cases hr : r.gap = []
    · have hgap : (q.joined r).gap = [] := h
      rw [Piece.onto_of_touching hr, Piece.onto_of_touching hr, Piece.onto_of_touching hgap,
        Piece.joined_joined]
    · rw [Piece.onto_of_apart hr, Piece.onto_of_apart hr, Piece.onto_of_touching h]

theorem flatMap_text_onto (p : Piece) (pieces : List Piece) :
    (p.onto pieces).flatMap Piece.text = p.text ++ pieces.flatMap Piece.text := by
  cases pieces with
  | nil => rfl
  | cons q rest =>
    by_cases hq : q.gap = []
    · simp [Piece.onto_of_touching hq, Piece.text_joined hq]
    · rw [Piece.onto_of_apart hq, List.flatMap_cons]

theorem flatMap_text_joinPieces (pieces : List Piece) :
    (joinPieces pieces).flatMap Piece.text = pieces.flatMap Piece.text := by
  induction pieces with
  | nil => rfl
  | cons p pieces ih => rw [joinPieces_cons, flatMap_text_onto, ih, List.flatMap_cons]

theorem gap_ne_nil_of_mem_tail_joinPieces (pieces : List Piece) :
    ∀ q ∈ (joinPieces pieces).tail, q.gap ≠ [] := by
  induction pieces with
  | nil => simp [joinPieces]
  | cons p pieces ih =>
    rw [joinPieces_cons]
    cases hjoined : joinPieces pieces with
    | nil => simp [Piece.onto]
    | cons q rest =>
      rw [hjoined] at ih
      by_cases hq : q.gap = []
      · rw [Piece.onto_of_touching hq]
        exact ih
      · rw [Piece.onto_of_apart hq]
        exact List.forall_mem_cons.mpr ⟨hq, ih⟩

/-- Pieces with gaps are left alone, up to the first that has none. -/
theorem joinPieces_append_cons (h : ∀ q ∈ (front ++ [p]).tail, q.gap ≠ []) (rest : List Piece) :
    joinPieces (front ++ p :: rest) = front ++ p.onto (joinPieces rest) := by
  induction front with
  | nil => rfl
  | cons first front ih =>
    rw [List.cons_append, List.tail_cons] at h
    have hbehind := ih fun q hq => h q (List.mem_of_mem_tail hq)
    rw [List.cons_append, joinPieces_cons, hbehind, List.cons_append]
    refine onto_of_gap ?_
    obtain ⟨q, more, honto, -, hgap⟩ := exists_onto p (joinPieces rest)
    cases front with
    | nil =>
      rw [List.nil_append, honto]
      rintro r ⟨⟩
      rw [hgap]
      exact h p (by simp)
    | cons second front =>
      rintro _ ⟨⟩
      exact h second (by simp)

theorem joinPieces_of_gaps (h : ∀ q ∈ pieces.tail, q.gap ≠ []) : joinPieces pieces = pieces := by
  cases pieces using List.reverseRecOn with
  | nil => rfl
  | append_singleton front p => exact joinPieces_append_cons h []

theorem joinPieces_append_joinPieces (front pieces : List Piece) :
    joinPieces (front ++ joinPieces pieces) = joinPieces (front ++ pieces) := by
  have hjoined : joinPieces (joinPieces pieces) = joinPieces pieces :=
    joinPieces_of_gaps (gap_ne_nil_of_mem_tail_joinPieces pieces)
  calc joinPieces (front ++ joinPieces pieces)
      = front.foldr Piece.onto (joinPieces (joinPieces pieces)) := List.foldr_append
    _ = front.foldr Piece.onto (joinPieces pieces) := by rw [hjoined]
    _ = joinPieces (front ++ pieces) := List.foldr_append.symm

end Joining

/-! ## What a tracker makes of them -/

/-- **Merging is joining** — of the selections of pieces, merging leaves those of the joined
pieces. -/
theorem map_fst_mergeRuns {p : Piece} {pieces : List Piece} {before : List Char} {mark : Bool}
    {entries : List (Selection × Bool)}
    (h : entries.map (·.1) = selectionsBehind (before ++ p.text) pieces) :
    (SelectionList.mergeRuns (p.selection before, mark) entries).map (·.1) =
      selectionsBehind before (joinPieces (p :: pieces)) := by
  induction pieces generalizing p before mark entries with
  | nil =>
    obtain rfl := List.map_eq_nil_iff.mp h
    rfl
  | cons q pieces ih =>
    obtain ⟨⟨next, nextMark⟩, entries, rfl, hnext, hentries⟩ := List.map_eq_cons_iff.mp h
    obtain rfl : next = q.selection (before ++ p.text) := hnext
    have htouches : (p.selection before).touches (q.selection (before ++ p.text)) = true ↔
        q.gap = [] := by
      have hle : (p.selection before).start ≤ (q.selection (before ++ p.text)).start := by
        rw [p.start_selection, q.start_selection, endCoord_append (before ++ p.text)]
        exact (p.start_le_stop before).trans (Coord.le_advance _ _)
      rw [Selection.touches_iff hle, p.stop_selection, q.start_selection]
      constructor
      · intro hstart
        by_contra hgap
        exact absurd hstart (not_le.mpr (endCoord_lt_append _ hgap))
      · intro hgap
        rw [hgap, List.append_nil]
    rw [SelectionList.mergeRuns]
    by_cases hgap : q.gap = []
    · rw [if_pos (htouches.mpr hgap), Piece.merge_selection hgap]
      rw [List.append_assoc, ← Piece.text_joined hgap] at hentries
      rw [ih hentries, joinPieces_cons, onto_joined hgap]
      rfl
    · obtain ⟨r, more, honto, -, hr⟩ := exists_onto q (joinPieces pieces)
      have hapart : ∀ r ∈ (joinPieces (q :: pieces)).head?, r.gap ≠ [] := by
        rw [joinPieces_cons, honto]
        rintro _ ⟨⟩
        rwa [hr]
      rw [if_neg (htouches.not.mpr hgap), List.map_cons, ih hentries, joinPieces_cons p,
        onto_of_gap hapart]
      rfl

namespace Layout

variable {L L' : Layout} {main : Nat}

/-- The layout with something between any two selections. -/
def joined (L : Layout) : Layout := { L with pieces := joinPieces L.pieces }

@[simp] theorem text_joined (L : Layout) : L.joined.text = L.text :=
  congrArg (· ++ L.rest) (flatMap_text_joinPieces L.pieces)

theorem proper_joined (L : Layout) : L.joined.Proper := gap_ne_nil_of_mem_tail_joinPieces L.pieces

theorem Proper.joined_eq (h : L.Proper) : L.joined = L := by
  rw [joined, joinPieces_of_gaps h]

/-- A tracker follows a change, and merges the selections that come to touch. -/
theorem Turns.carry_joined {change : Change} (h : L.Turns change L') (hproper : L.Proper)
    (hmain : main < L.pieces.length) :
    ∃ main', main' < L'.joined.pieces.length ∧
      (L.shown (.all main)).carry (Document.eventOf L.text change) = L'.joined.shown (.all main') := by
  have hview : View.Valid L.pieces.length (.all main) := hmain
  have hwell := hproper.wellFormed_shown hview
  let moved : SelectionList := ⟨L'.selections, main⟩
  have hcarry : (L.shown (.all main)).carry (Document.eventOf L.text change) = moved.normalize := by
    rw [SelectionList.carry, SelectionList.mapCoords, SelectionList.transform, shown, h.selections]
  have hnormal : moved.normalize.WellFormed := by
    rw [← hcarry]
    exact SelectionList.mapCoords_wellFormed _ hwell.main_lt
  have horder : InOrder L'.selections := by
    rw [← h.selections]
    exact hwell.inOrder.map h.text.carry_monotone
  have hsorted : moved.marked.Pairwise fun a b => a.1.start ≤ b.1.start := by
    have hentries : InOrder (moved.marked.map (·.1)) := by
      rw [moved.map_fst_marked]
      exact horder
    exact (List.pairwise_map.mp hentries).imp fun {a b} hab => a.1.start_le_stop.trans hab
  have hlength : L'.pieces.length = L.pieces.length := by
    rw [← length_selections, ← h.selections, List.length_map, length_selections]
  obtain ⟨p, pieces, hpieces⟩ : ∃ p pieces, L'.pieces = p :: pieces :=
    List.exists_cons_of_ne_nil (List.ne_nil_of_length_pos (by omega))
  have hselections : L'.selections = p.selection [] :: selectionsBehind p.text pieces := by
    rw [Layout.selections, hpieces, selectionsBehind, List.nil_append]
  obtain ⟨⟨first, mark⟩, rest, hsort, hnormalize⟩ :=
    SelectionList.exists_normalize (l := moved) (by simp [moved, hselections])
  rw [SelectionList.sortMarked, List.mergeSort_of_pairwise (hsorted.imp decide_eq_true)] at hsort
  have hmarked : moved.marked.map (·.1) = p.selection [] :: selectionsBehind p.text pieces :=
    moved.map_fst_marked.trans hselections
  rw [hsort] at hmarked
  obtain ⟨rfl, hrest⟩ := List.cons.inj hmarked
  have hmerged : moved.normalize.selections = L'.joined.selections := by
    rw [hnormalize, Layout.selections, joined, hpieces]
    exact map_fst_mergeRuns hrest
  refine ⟨moved.normalize.mainIndex, ?_, ?_⟩
  · have hmain' := hnormal.main_lt
    rwa [SelectionList.length, hmerged, length_selections] at hmain'
  · rw [hcarry, shown, ← hmerged]

end Layout

/-! ## One character -/

namespace Layout

variable {before after : List Piece} {p : Piece} {rest : List Char}

/-- The last character of a gap is erased. -/
theorem turns_erase_gap (hproper : Proper ⟨before ++ p :: after, rest⟩) {gap : List Char} {x : Char}
    (hgap : p.gap = gap ++ [x]) :
    Turns (.erase (byteLength (before.flatMap Piece.text ++ gap)) [x])
      ⟨before ++ p :: after, rest⟩ ⟨before ++ p.shortened :: after, rest⟩ := by
  have hshortened : p.shortened.gap = gap := by rw [Piece.shortened, hgap, List.dropLast_concat]
  have hbody : p.shortened.body = p.body := rfl
  have hold : text ⟨before ++ p :: after, rest⟩ =
      (before.flatMap Piece.text ++ gap) ++ [x] ++
        (p.body ++ (after.flatMap Piece.text ++ rest)) := by
    simp [text_split, Piece.text, hgap]
  have hnew : text ⟨before ++ p.shortened :: after, rest⟩ =
      (before.flatMap Piece.text ++ gap) ++ (p.body ++ (after.flatMap Piece.text ++ rest)) := by
    simp [text_split, Piece.text, hshortened, hbody]
  have hstart := Event.carry_erased_start (before.flatMap Piece.text ++ gap) (List.cons_ne_nil x [])
  have hbehind := Event.carry_erased_behind (before.flatMap Piece.text ++ gap) [x]
  refine ⟨by rw [hold, hnew]; exact .erase _ _ _, ?_⟩
  rw [hold, Document.eventOf_erase, ← endCoord_append]
  refine map_selections_split hproper rfl rfl (fun y z hz hyz => ?_) ?_ fun z => ?_
  · -- what ends within the gap ends before its last character or right there
    rw [hgap, ← List.append_assoc] at hyz
    obtain ⟨w, hw⟩ : ∃ w, before.flatMap Piece.text ++ gap = y ++ w := by
      obtain ⟨w, last, rfl⟩ := (List.eq_nil_or_concat' z).resolve_left hz
      rw [← List.append_assoc] at hyz
      exact ⟨w, (List.append_inj' hyz rfl).1⟩
    by_cases hnil : w = []
    · rw [hnil, List.append_nil] at hw
      rw [← hw]
      exact hstart
    · rw [hw]
      exact Event.carry_erased_of_prefix hnil _
  · rw [hgap, ← List.append_assoc, hshortened]
    simpa using hbehind []
  · simpa [Piece.text, hgap, hshortened, hbody, List.append_assoc] using hbehind (p.body ++ z)

/-- The layout without the last character before each selection. -/
def shortened (L : Layout) : Layout := { L with pieces := L.pieces.map Piece.shortened }

theorem modify_shortened_of_nil (h : p.gap = []) :
    modify ⟨before ++ p :: after, rest⟩ before.length Piece.shortened =
      ⟨before ++ p :: after, rest⟩ := by
  have hsame : p.shortened = p := by rw [Piece.shortened, h, List.dropLast_nil, ← h]
  rw [modify_split, hsame]

end Layout

namespace Document

variable {d e : Document} {L L' : Layout} {tracker : Nat}

/-- **`d.Presents tracker L`** — the text of the document is laid out so, no listener fails, and the
tracker holds all selections. -/
structure Presents (d : Document) (tracker : Nat) (L : Layout) : Prop where
  lays : d.Lays L
  shown : ∃ main, main < L.pieces.length ∧ d.tracked? tracker = some (L.shown (.all main))

/-- A change that turns layouts succeeds, and the tracker merges the selections that come to
touch. -/
theorem Presents.change (h : d.Presents tracker L) {change : Change} (hturns : L.Turns change L') :
    unlessFailed ((d.record change).apply change).1 () = .ok () ∧
      ((d.record change).apply change).2.Presents tracker L'.joined := by
  obtain ⟨main, hmain, hshown⟩ := h.shown
  have hrecord : d.Relays L (d.record change) L :=
    h.lays.aside (text_record d change) (listeners_record d change)
  obtain ⟨hok, hobliging⟩ := hrecord.lays.obliging.apply change
  obtain ⟨main', hmain', hcarry⟩ := hturns.carry_joined h.lays.proper hmain
  refine ⟨by rw [hok]; rfl, ⟨?_, L'.proper_joined, hobliging⟩, main', hmain', ?_⟩
  · rw [text_apply, hrecord.lays.text, hturns.text.applyTo_eq, Layout.text_joined]
  · have hview : Layout.View.Valid L.pieces.length (.all main) := hmain
    rw [tracked?_apply (hrecord.follows tracker _ hview hshown), hrecord.lays.text, hcarry]

/-- Erases the character before one selection. -/
def eraseBefore (s : Selection) (d : Document) : Except SelectionError Unit × Document :=
  if s.start = .origin then (.ok (), d) else d.erase (prevCoord d.text s.start) s.start

theorem eraseBeforeAll_eq (d : Document) (tracker : Nat) :
    d.eraseBeforeAll tracker = d.editAll tracker fun _ => eraseBefore := rfl

/-- **One character before one selection** — it is the last one of the gap, if there is any. -/
theorem Presents.eraseBefore (h : d.Presents tracker L) {index : Nat} {s : Selection}
    (hs : L.selections[index]? = some s) :
    (Document.eraseBefore s d).1 = .ok () ∧
      (Document.eraseBefore s d).2.Presents tracker (L.modify index Piece.shortened).joined := by
  obtain ⟨before, p, after, rest, rfl, rfl, rfl⟩ := Layout.exists_split hs
  rw [Document.eraseBefore, p.start_selection]
  rcases List.eq_nil_or_concat' p.gap with hgap | ⟨gap, x, hgap⟩
  · -- only the first selection may have nothing before it
    have hbefore : before = [] := by
      cases before with
      | nil => rfl
      | cons first before => exact absurd hgap (h.lays.proper p (by simp))
    have hstart : endCoord (before.flatMap Piece.text ++ p.gap) = .origin := by
      rw [hbefore, hgap]
      rfl
    rw [if_pos hstart, Layout.modify_shortened_of_nil hgap, h.lays.proper.joined_eq]
    exact ⟨rfl, h⟩
  · have htext : d.text = (before.flatMap Piece.text ++ gap) ++ [x] ++
        (p.body ++ (after.flatMap Piece.text ++ rest)) := by
      rw [h.lays.text]
      simp [Layout.text_split, Piece.text, hgap]
    have hstart : endCoord (before.flatMap Piece.text ++ (gap ++ [x])) ≠ .origin := by
      rw [ne_eq, endCoord_eq_origin_iff]
      simp
    rw [hgap, if_neg hstart, ← List.append_assoc]
    have hprev : prevCoord d.text (endCoord (before.flatMap Piece.text ++ gap ++ [x])) =
        endCoord (before.flatMap Piece.text ++ gap) := by
      rw [htext]
      exact prevCoord_endCoord _ _ _
    rw [hprev, erase_endCoord htext (List.cons_ne_nil x []), Layout.modify_split]
    exact h.change (Layout.turns_erase_gap h.lays.proper hgap)

/-! ## All characters -/

/-- **From the last selection to the first** — what is behind the selections that are still to come
has been shortened and joined, and if the next selection is in one piece with some of it, it still
starts where it did. By induction on the selections that are still to come. -/
theorem Presents.editEach_eraseBefore {front behind : List Piece} {rest : List Char}
    (hgaps : ∀ p ∈ front.tail, p.gap ≠ [])
    (h : d.Presents tracker ⟨joinPieces (front ++ behind), rest⟩) :
    (d.editEach tracker (fun _ => Document.eraseBefore) front.length).1 = .ok () ∧
      (d.editEach tracker (fun _ => Document.eraseBefore) front.length).2.Presents tracker
        ⟨joinPieces (front.map Piece.shortened ++ behind), rest⟩ := by
  induction front using List.reverseRecOn generalizing d behind with
  | nil => exact ⟨rfl, h⟩
  | append_singleton front p ih =>
    obtain ⟨q, more, honto, hshort, -⟩ := exists_onto p (joinPieces behind)
    have hpieces : joinPieces (front ++ [p] ++ behind) = front ++ q :: more := by
      rw [List.append_assoc, List.singleton_append, joinPieces_append_cons hgaps, honto]
    have hnext : joinPieces (front ++ q.shortened :: more) =
        joinPieces (front ++ p.shortened :: behind) := by
      rw [← hshort, ← joinPieces_cons, joinPieces_append_joinPieces]
    have hfront : ∀ p ∈ front.tail, p.gap ≠ [] := by
      intro r hr
      refine hgaps r ?_
      cases front with
      | nil => exact absurd hr List.not_mem_nil
      | cons first front => exact List.mem_append_left _ hr
    rw [hpieces] at h
    obtain ⟨main, -, hshown⟩ := h.shown
    have hs := Layout.getElem?_selections_split front more q rest
    have hget : (d.selections tracker).get? front.length =
        some (q.selection (front.flatMap Piece.text)) := by
      rw [selections_of_tracked? hshown]
      exact hs
    obtain ⟨hok, hstep⟩ := h.eraseBefore hs
    rw [Layout.modify_split, Layout.joined, hnext] at hstep
    rw [List.length_append, List.length_singleton, editEach, hget]
    dsimp only
    generalize Document.eraseBefore (q.selection (front.flatMap Piece.text)) d = done at hok hstep ⊢
    obtain ⟨result, e⟩ := done
    dsimp only at hok hstep
    subst hok
    have hrest := ih hfront hstep
    rw [List.map_append, List.append_assoc]
    exact hrest

/-- **One character before each selection** — every gap loses its last character. -/
theorem Presents.eraseBeforeAll (h : d.Presents tracker L) :
    (d.eraseBeforeAll tracker).1 = .ok () ∧
      (d.eraseBeforeAll tracker).2.Presents tracker L.shortened.joined := by
  obtain ⟨main, hmain, hshown⟩ := h.shown
  have hlength : (d.selections tracker).length = L.pieces.length := by
    rw [selections_of_tracked? hshown]
    exact L.length_selections
  have hpieces : joinPieces (L.pieces ++ []) = L.pieces := by
    rw [List.append_nil]
    exact joinPieces_of_gaps h.lays.proper
  have hstart : d.Presents tracker ⟨joinPieces (L.pieces ++ []), L.rest⟩ := by
    rw [hpieces]
    exact h
  have hdone := hstart.editEach_eraseBefore h.lays.proper
  rw [List.append_nil] at hdone
  rw [eraseBeforeAll_eq, editAll, hlength]
  exact hdone

end Document

namespace Layout

/-- Of the text all characters are left but those that end where a selection starts. -/
theorem text_shortened_eq_without (L : Layout) (hproper : L.Proper) :
    L.shortened.text = without (fun _ stop => L.selections.any fun x =>
      (x.span L.text).1 = stop) L.text := by
  have hspans : ∀ stop, (L.selections.any fun x => (x.span L.text).1 = stop) =
      (spansBehind 0 L.pieces).any fun r => r.1 = stop := by
    intro stop
    rw [← map_span_selections, List.any_map]
    rfl
  have htext : L.shortened.text =
      L.pieces.flatMap (fun p => p.gap.dropLast ++ p.body) ++ L.rest := by
    rw [text, shortened, List.flatMap_map]
    rfl
  simp only [hspans]
  rw [htext]
  refine (withoutFrom_spans (fun r _ stop => r.1 = stop) ?_ ?_ ?_ hproper 0 L.rest).symm
  · intro r start stop hle hstart hlt
    rw [decide_eq_false_iff_not]
    omega
  · intro r start stop _ hstop
    rw [decide_eq_false_iff_not]
    omega
  · intro n p _
    have hbody : withoutFrom (fun _ stop => n + byteLength p.gap = stop) (n + byteLength p.gap)
        p.body = p.body := by
      refine (withoutFrom_congr fun start stop hstart hlt _ => ?_).trans
        (withoutFrom_false (n + byteLength p.gap) p.body)
      rw [decide_eq_false_iff_not]
      omega
    have hgap : withoutFrom (fun _ stop => n + byteLength p.gap = stop) n p.gap =
        p.gap.dropLast := by
      rcases List.eq_nil_or_concat' p.gap with hnil | ⟨gap, x, hconcat⟩
      · rw [hnil]
        rfl
      · have hlead : withoutFrom (fun _ stop => n + byteLength (gap ++ [x]) = stop) n gap =
            gap := by
          refine (withoutFrom_congr fun start stop _ _ hstop => ?_).trans (withoutFrom_false n gap)
          have := x.utf8Size_pos
          simp only [byteLength_append, byteLength_cons, byteLength_nil, decide_eq_false_iff_not]
          omega
        have hlast : withoutFrom (fun _ stop => n + byteLength (gap ++ [x]) = stop)
            (n + byteLength gap) [x] = [] := by
          have hend : n + byteLength (gap ++ [x]) = n + byteLength gap + x.utf8Size := by
            simp only [byteLength_append, byteLength_cons, byteLength_nil]
            omega
          rw [withoutFrom, if_pos (decide_eq_true hend)]
          rfl
        rw [hconcat, withoutFrom_append, hlead, hlast, List.append_nil, List.dropLast_concat]
    refine (withoutFrom_append _ n p.gap p.body).trans ?_
    rw [hgap, hbody]

end Layout

/-! ## Erasures of a context -/

namespace Scene

variable {s : Scene}

theorem document_eraseBefore (hstored : s.context.document < s.editor.store.length) :
    (eraseBefore.perform s).2.document = (s.document.eraseBeforeAll s.context.tracker).2 := by
  rw [perform_eraseBefore]
  exact document_perform_edit hstored _

theorem selections_eraseBefore (hstored : s.context.document < s.editor.store.length) :
    (eraseBefore.perform s).2.selections =
      (s.document.eraseBeforeAll s.context.tracker).2.selections s.context.tracker := by
  have hcontext : (eraseBefore.perform s).2.context = s.context := by
    rw [perform_eraseBefore, perform_edit]
  rw [← document_eraseBefore hstored, ← hcontext]
  rfl

/-- **Erasure before all selections takes one character each** — the text is the old one without
the characters that end where a selection starts. -/
theorem erase_before_removes (hs : s.Sound)
    (htracked : (s.document.tracked? s.context.tracker).isSome) (hobliging : s.document.Obliging) :
    let text := s.document.text
    let done := eraseBefore.perform s
    done.1 = .ok () ∧
      done.2.document.text = without (fun _ stop => s.selections.selections.any fun x =>
        (x.span text).1 = stop) text := by
  intro text done
  obtain ⟨L, hlays, hselections, hmain, hshown⟩ := hs.exists_shown htracked hobliging
  have hlist : s.selections.selections = L.selections := congrArg (·.selections) hselections
  have hpresents : s.document.Presents s.context.tracker L := ⟨hlays, _, hmain, hshown⟩
  obtain ⟨hok, hafter⟩ := hpresents.eraseBeforeAll
  obtain ⟨t, hperform, hdocument, -⟩ := perform_edit_of_ok hs.stored
    (f := (·.eraseBeforeAll s.context.tracker)) hok
  have hdone : done = (.ok (), t) := (perform_eraseBefore s).trans hperform
  have hold : text = L.text := hlays.text
  have hnew : t.document.text = L.shortened.text := by
    rw [hdocument, hafter.lays.text, L.shortened.text_joined]
  refine ⟨?_, ?_⟩
  · rw [hdone]
  · rw [hdone, hnew, hlist, hold]
    exact L.text_shortened_eq_without hlays.proper

set_option maxRecDepth 100000 in
/-- Four selections become two on the way: a line end goes, and three points next to each other
meet. -/
theorem erase_before_removes_at_neighbours :
    let selected : SelectionList :=
      ⟨[.point ⟨0, 0⟩, .point ⟨0, 1⟩, .point ⟨0, 3⟩, ⟨⟨1, 2⟩, ⟨1, 0⟩, []⟩], 3⟩
    let d : Document :=
      { name := "notes", text := "aéc\nde\n".toList, nextListener := 1
        listeners := [⟨0, .tracker selected⟩] }
    let s : Scene := ⟨{ store := [d] }, { name := "main", document := 0, tracker := 0 }⟩
    let done := eraseBefore.perform s
    s.Sound ∧ s.document.Obliging ∧ done.1 = .ok () ∧ done.2.document.text = "cde\n".toList ∧
      done.2.selections.length = 2 := by
  intro selected d s done
  have hwithin : selected.Within (IsPosition d.text) := by
    unfold SelectionList.Within IsPosition
    decide
  have hsound : s.Sound := sound_of_tracked (by decide) rfl ⟨by decide, by decide⟩ hwithin
  have hobliging : s.document.Obliging := by
    intro l hl
    rw [List.mem_singleton.mp hl]
    exact Nat.lt_succ_self 3
  obtain ⟨hok, htext⟩ := erase_before_removes hsound rfl hobliging
  have hleft : without (fun _ stop => s.selections.selections.any fun x =>
      (x.span s.document.text).1 = stop) s.document.text = "cde\n".toList := by decide +kernel
  have hlength : ((s.document.eraseBeforeAll 0).2.selections 0).length = 2 := by cbv
  have hselections : done.2.selections.length = 2 :=
    (congrArg SelectionList.length (selections_eraseBefore hsound.stored)).trans hlength
  exact ⟨hsound, hobliging, hok, htext.trans hleft, hselections⟩

set_option maxRecDepth 100000 in
/-- With a listener that fails, the first selection has the character before it still. -/
theorem erase_before_stops_short :
    let points : SelectionList := ⟨[.point ⟨0, 1⟩, .point ⟨0, 3⟩], 0⟩
    let d : Document :=
      { name := "notes", text := "abcd\n".toList, nextListener := 2
        listeners := [⟨0, .tracker points⟩,
          ⟨1, .observer "guard" fun _ => { failure := some .empty }⟩] }
    let s : Scene := ⟨{ store := [d] }, { name := "main", document := 0, tracker := 0 }⟩
    let done := eraseBefore.perform s
    s.Sound ∧ s.document.tracked? s.context.tracker = some points ∧
      done.2.document.text = "abd\n".toList ∧
      done.2.document.text ≠ without (fun _ stop => s.selections.selections.any fun x =>
        (x.span s.document.text).1 = stop) s.document.text := by
  intro points d s done
  have hwithin : points.Within (IsPosition d.text) := by
    unfold SelectionList.Within IsPosition
    decide
  have hsound : s.Sound := sound_of_tracked (by decide) rfl ⟨by decide, by decide⟩ hwithin
  have hleft : (s.document.eraseBeforeAll 0).2.text = "abd\n".toList := by cbv
  have htext : done.2.document.text = "abd\n".toList :=
    (congrArg Document.text (document_eraseBefore hsound.stored)).trans hleft
  have hwithout : without (fun _ stop => s.selections.selections.any fun x =>
      (x.span s.document.text).1 = stop) s.document.text = "bd\n".toList := by decide +kernel
  refine ⟨hsound, rfl, htext, ?_⟩
  rw [hwithout]
  exact fun h => absurd (htext.symm.trans h) (by decide)

end Scene

end ModalEdit
