import ModalEdit.Proofs.EditSteps
import ModalEdit.Proofs.EditedPositions

/-!
# Texts laid out around selections

Selections that are apart cut a text into pieces: what one of them covers, with what lies between it
and the one before it (`exists_layout`). Typing at a selection, or erasing what it covers, changes
its piece and nothing else, and the selections of the changed text are those of the changed pieces
(`relays_insertText`, `relays_stroke`). So it does not matter in which order the selections are come
to, nor whether one tracker holds them all or only the one that is edited (`relays_editAll`), nor
whether the same is done at all of them (`relays_editEach`).
-/

namespace ModalEdit

open Text

/-! ## Coordinates behind a prefix -/

namespace Event

theorem carry_inserted_of_prefix {x z : List Char} (hz : z ≠ []) (stop : Coord) :
    (inserted (endCoord (x ++ z)) stop).carry (endCoord x) = endCoord x :=
  Coord.afterInsert_of_lt (endCoord_lt_append x hz)

theorem carry_inserted_behind (a added z : List Char) :
    (inserted (endCoord a) (endCoord (a ++ added))).carry (endCoord (a ++ z)) =
      endCoord (a ++ added ++ z) := by
  rw [carry, endCoord_append a added, endCoord_append a z, endCoord_append (a ++ added),
    endCoord_append a added]
  exact Coord.afterInsert_advance _ _ _

theorem carry_erased_of_prefix {x z : List Char} (hz : z ≠ []) (stop : Coord) :
    (erased (endCoord (x ++ z)) stop).carry (endCoord x) = endCoord x :=
  Coord.afterErase_of_lt (endCoord_lt_append x hz)

theorem carry_erased_start (a : List Char) {removed : List Char} (h : removed ≠ []) :
    (erased (endCoord a) (endCoord (a ++ removed))).carry (endCoord a) = endCoord a :=
  Coord.afterErase_of_mem le_rfl (endCoord_lt_append a h)

theorem carry_erased_behind (a removed z : List Char) :
    (erased (endCoord a) (endCoord (a ++ removed))).carry (endCoord (a ++ removed ++ z)) =
      endCoord (a ++ z) := by
  rw [carry, endCoord_append (a ++ removed) z, endCoord_append a removed, endCoord_append a z]
  exact Coord.afterErase_advance _ _ _

end Event

namespace Text

/-- A position that does not lie before the end of a prefix is the end of a longer one. -/
theorem exists_of_le {before after : List Char} {c : Coord} (hle : endCoord before ≤ c)
    (hc : IsPosition (before ++ after) c) :
    ∃ x y, after = x ++ y ∧ c = endCoord (before ++ x) := by
  obtain ⟨a, b, hab, rfl⟩ := isPosition_iff.mp hc
  rcases cut_cases hab with ⟨z, hz, rfl, -⟩ | ⟨z, rfl, rfl⟩
  · exact absurd hle (not_le.mpr (endCoord_lt_append a hz))
  · exact ⟨z, b, rfl, rfl⟩

end Text

/-! ## Pieces -/

/-- One selection with the text around it: what lies between it and the one before it, and what it
covers. -/
structure Piece where
  gap : List Char
  body : List Char
  isBackward : Bool
  captures : List String

namespace Piece

/-- The text of a piece. -/
def text (p : Piece) : List Char := p.gap ++ p.body

/-- The selection of a piece that comes behind a text. -/
def selection (p : Piece) (before : List Char) : Selection :=
  let start := endCoord (before ++ p.gap)
  let stop := endCoord (before ++ p.text)
  if p.isBackward then ⟨stop, start, p.captures⟩ else ⟨start, stop, p.captures⟩

variable {p q : Piece} {before : List Char}

theorem start_le_stop (p : Piece) (before : List Char) :
    endCoord (before ++ p.gap) ≤ endCoord (before ++ p.text) := by
  rw [text, ← List.append_assoc, endCoord_append (before ++ p.gap)]
  exact Coord.le_advance _ _

@[simp] theorem start_selection (p : Piece) (before : List Char) :
    (p.selection before).start = endCoord (before ++ p.gap) := by
  unfold selection Selection.start
  split
  · exact min_eq_right (p.start_le_stop before)
  · exact min_eq_left (p.start_le_stop before)

@[simp] theorem stop_selection (p : Piece) (before : List Char) :
    (p.selection before).stop = endCoord (before ++ p.text) := by
  unfold selection Selection.stop
  split
  · exact max_eq_left (p.start_le_stop before)
  · exact max_eq_right (p.start_le_stop before)

/-- A piece whose ends go to those of another one, which looks like it. -/
theorem map_selection {f : Coord → Coord} {before' : List Char}
    (hbackward : q.isBackward = p.isBackward) (hcaptures : q.captures = p.captures)
    (hstart : f (endCoord (before ++ p.gap)) = endCoord (before' ++ q.gap))
    (hstop : f (endCoord (before ++ p.text)) = endCoord (before' ++ q.text)) :
    (p.selection before).map f = q.selection before' := by
  unfold selection
  rw [hbackward, hcaptures]
  dsimp only
  split <;> simp [Selection.map, hstart, hstop]

/-- The piece of a selection that does not start before the end of a prefix. -/
theorem exists_selection {after : List Char} {s : Selection} (hle : endCoord before ≤ s.start)
    (hs : IsPosition (before ++ after) s.anchor ∧ IsPosition (before ++ after) s.cursor) :
    ∃ (p : Piece) (rest : List Char), after = p.text ++ rest ∧ p.selection before = s ∧
      (endCoord before < s.start → p.gap ≠ []) := by
  obtain ⟨hstart, hstop⟩ := s.ends_iff.mpr hs
  obtain ⟨gap, y, rfl, hgap⟩ := exists_of_le hle hstart
  rw [← List.append_assoc] at hstop
  obtain ⟨body, rest, rfl, hbody⟩ := exists_of_le (hgap ▸ s.start_le_stop) hstop
  refine ⟨⟨gap, body, s.isBackward, s.captures⟩, rest, by simp [text], ?_, ?_⟩
  · rw [List.append_assoc] at hbody
    simp only [selection, text, ← hgap, ← hbody]
    by_cases hb : s.cursor < s.anchor
    · have hbackward : s.isBackward = true := decide_eq_true hb
      rw [if_pos hbackward, Selection.stop, Selection.start, max_eq_left hb.le, min_eq_right hb.le]
    · have hforward : ¬ s.isBackward = true := fun h => hb (of_decide_eq_true h)
      rw [if_neg hforward, Selection.stop, Selection.start, max_eq_right (not_lt.mp hb),
        min_eq_left (not_lt.mp hb)]
  · rintro hlt rfl
    rw [hgap, List.append_nil] at hlt
    exact absurd hlt (lt_irrefl _)

/-- The piece with a text inserted on one side of its selection. A selection that covers something
covers what comes to stand behind it; one that covers nothing moves behind it. -/
def inserted (position : InsertPosition) (added : List Char) (p : Piece) : Piece :=
  match position with
  | .before => { p with gap := p.gap ++ added }
  | .after =>
    if p.body = [] then { p with gap := p.gap ++ added } else { p with body := p.body ++ added }

theorem inserted_of_point (added : List Char) (h : p.body = []) :
    p.inserted .after added = { p with gap := p.gap ++ added } := if_pos h

theorem inserted_of_body (added : List Char) (h : p.body ≠ []) :
    p.inserted .after added = { p with body := p.body ++ added } := if_neg h

/-- Nothing is taken away from what lies between selections. -/
theorem gap_inserted_ne_nil (position : InsertPosition) (added : List Char) (h : p.gap ≠ []) :
    (p.inserted position added).gap ≠ [] := by
  cases position with
  | before => simp [inserted, h]
  | after =>
    by_cases hbody : p.body = []
    · simp [inserted_of_point added hbody, h]
    · rw [inserted_of_body added hbody]
      exact h

end Piece

/-- The selections of pieces that come behind a text. -/
def selectionsBehind (before : List Char) : List Piece → List Selection
  | [] => []
  | p :: rest => p.selection before :: selectionsBehind (before ++ p.text) rest

section Behind

variable {before before' : List Char} {pieces : List Piece} {f : Coord → Coord}

@[simp] theorem length_selectionsBehind (before : List Char) (pieces : List Piece) :
    (selectionsBehind before pieces).length = pieces.length := by
  induction pieces generalizing before with
  | nil => rfl
  | cons p rest ih => rw [selectionsBehind, List.length_cons, List.length_cons, ih]

theorem selectionsBehind_append (before : List Char) (pieces more : List Piece) :
    selectionsBehind before (pieces ++ more) =
      selectionsBehind before pieces ++
        selectionsBehind (before ++ pieces.flatMap Piece.text) more := by
  induction pieces generalizing before with
  | nil => simp [selectionsBehind]
  | cons p rest ih =>
    simp [selectionsBehind, ih, List.append_assoc]

/-- The ends of the selections are ends of prefixes. -/
theorem ends_selectionsBehind {P : Coord → Prop}
    (h : ∀ x y, before ++ pieces.flatMap Piece.text = x ++ y → P (endCoord x)) :
    ∀ s ∈ selectionsBehind before pieces, P s.anchor ∧ P s.cursor := by
  induction pieces generalizing before with
  | nil => simp [selectionsBehind]
  | cons p rest ih =>
    refine List.forall_mem_cons.mpr ⟨?_, ih fun x y hxy => h x y (by simpa using hxy)⟩
    rw [← Selection.ends_iff, p.start_selection, p.stop_selection]
    refine ⟨h _ (p.body ++ rest.flatMap Piece.text) ?_, h _ (rest.flatMap Piece.text) ?_⟩
    · simp [Piece.text]
    · simp

/-- Selections whose ends stay do. -/
theorem map_selectionsBehind_of_fixed
    (h : ∀ x y, before ++ pieces.flatMap Piece.text = x ++ y → f (endCoord x) = endCoord x) :
    (selectionsBehind before pieces).map (·.map f) = selectionsBehind before pieces := by
  have hends := ends_selectionsBehind (P := fun c => f c = c) h
  refine (List.map_congr_left fun s hs => ?_).trans (List.map_id _)
  obtain ⟨hanchor, hcursor⟩ := hends s hs
  rw [Selection.map, hanchor, hcursor]
  rfl

/-- Selections behind a text move along with its end. -/
theorem map_selectionsBehind (h : ∀ z, f (endCoord (before ++ z)) = endCoord (before' ++ z)) :
    (selectionsBehind before pieces).map (·.map f) = selectionsBehind before' pieces := by
  induction pieces generalizing before before' with
  | nil => rfl
  | cons p rest ih =>
    rw [selectionsBehind, selectionsBehind, List.map_cons,
      Piece.map_selection rfl rfl (h p.gap) (h p.text), ih]
    intro z
    rw [List.append_assoc, List.append_assoc, h]

/-- Pieces with something between them have selections that are apart. -/
theorem lt_start_selectionsBehind (h : ∀ p ∈ pieces, p.gap ≠ []) :
    ∀ s ∈ selectionsBehind before pieces, endCoord before < s.start := by
  induction pieces generalizing before with
  | nil => simp [selectionsBehind]
  | cons p rest ih =>
    obtain ⟨hp, hrest⟩ := List.forall_mem_cons.mp h
    refine List.forall_mem_cons.mpr ⟨?_, fun s hs => lt_of_le_of_lt ?_ (ih hrest s hs)⟩
    · rw [p.start_selection]
      exact endCoord_lt_append before hp
    · rw [endCoord_append]
      exact Coord.le_advance _ _

theorem separated_selectionsBehind (h : ∀ p ∈ pieces.tail, p.gap ≠ []) :
    (selectionsBehind before pieces).Pairwise fun s t => s.stop < t.start := by
  induction pieces generalizing before with
  | nil => exact .nil
  | cons p rest ih =>
    refine List.pairwise_cons.mpr ⟨fun s hs => ?_, ih fun q hq => h q (List.mem_of_mem_tail hq)⟩
    rw [p.stop_selection]
    exact lt_start_selectionsBehind h s hs

/-- Selections that are apart, and behind a prefix, are those of pieces. -/
theorem exists_pieces {after : List Char} {selections : List Selection}
    (hpositions : ∀ s ∈ selections,
      IsPosition (before ++ after) s.anchor ∧ IsPosition (before ++ after) s.cursor)
    (hseparated : selections.Pairwise fun s t => s.stop < t.start)
    (hbehind : ∀ s ∈ selections, endCoord before < s.start) :
    ∃ (pieces : List Piece) (rest : List Char), after = pieces.flatMap Piece.text ++ rest ∧
      selectionsBehind before pieces = selections ∧ ∀ p ∈ pieces, p.gap ≠ [] := by
  induction selections generalizing before after with
  | nil => exact ⟨[], after, rfl, rfl, nofun⟩
  | cons s selections ih =>
    obtain ⟨hs, hrest⟩ := List.forall_mem_cons.mp hpositions
    obtain ⟨hfirst, hapart⟩ := List.pairwise_cons.mp hseparated
    obtain ⟨hlt, -⟩ := List.forall_mem_cons.mp hbehind
    obtain ⟨p, after', rfl, rfl, hgap⟩ := Piece.exists_selection hlt.le hs
    rw [p.stop_selection] at hfirst
    rw [← List.append_assoc] at hrest
    obtain ⟨pieces, rest, rfl, rfl, hgaps⟩ := ih hrest hapart hfirst
    exact ⟨p :: pieces, rest, by simp, rfl, List.forall_mem_cons.mpr ⟨hgap hlt, hgaps⟩⟩

end Behind

/-! ## Layouts -/

/-- A text cut into the pieces of its selections, with what comes behind them. -/
structure Layout where
  pieces : List Piece
  rest : List Char

namespace Layout

variable {L : Layout}

/-- The text. -/
def text (L : Layout) : List Char := L.pieces.flatMap Piece.text ++ L.rest

/-- The selections, in text order. -/
def selections (L : Layout) : List Selection := selectionsBehind [] L.pieces

/-- **`L.Proper`** — there is something between any two selections. -/
def Proper (L : Layout) : Prop := ∀ p ∈ L.pieces.tail, p.gap ≠ []

/-- The layout with one piece changed. -/
def modify (L : Layout) (index : Nat) (f : Piece → Piece) : Layout :=
  { L with pieces := L.pieces.modify index f }

@[simp] theorem length_selections (L : Layout) : L.selections.length = L.pieces.length :=
  length_selectionsBehind _ _

/-- **Selections cut a text** — well-formed selections in a text are those of a layout of it. -/
theorem exists_layout {text : List Char} {l : SelectionList} (hl : l.WellFormed)
    (hwithin : l.Within (IsPosition text)) :
    ∃ L : Layout, L.text = text ∧ L.selections = l.selections ∧ L.Proper := by
  cases hselections : l.selections with
  | nil => exact ⟨⟨[], text⟩, rfl, rfl, nofun⟩
  | cons s selections =>
    have hseparated := hl.separated
    rw [hselections] at hseparated
    obtain ⟨hfirst, hapart⟩ := List.pairwise_cons.mp hseparated
    have hpositions : ∀ t ∈ s :: selections,
        IsPosition ([] ++ text) t.anchor ∧ IsPosition ([] ++ text) t.cursor := by
      rw [← hselections]
      exact hwithin
    obtain ⟨hs, hrest⟩ := List.forall_mem_cons.mp hpositions
    obtain ⟨p, after, rfl, rfl, -⟩ :=
      Piece.exists_selection (endCoord_nil ▸ Coord.origin_le _) hs
    rw [p.stop_selection] at hfirst
    rw [← List.append_assoc] at hrest
    obtain ⟨pieces, rest, rfl, rfl, hgaps⟩ := exists_pieces hrest hapart hfirst
    exact ⟨⟨p :: pieces, rest⟩, by simp [text], rfl, hgaps⟩

/-! ## One change -/

/-- **`L.Turns change L'`** — the change fits the text of `L` and makes that of `L'` of it, and the
selections of `L` go to those of `L'`. -/
structure Turns (change : Change) (L L' : Layout) : Prop where
  text : change.Turns L.text L'.text
  selections : L.selections.map (·.map (Document.eventOf L.text change).carry) = L'.selections

section Turning

variable {before after : List Piece} {p q : Piece} {rest : List Char}

/-- The text in front of a piece, and that of the piece. -/
theorem text_split (before after : List Piece) (p : Piece) (rest : List Char) :
    text ⟨before ++ p :: after, rest⟩ =
      before.flatMap Piece.text ++ p.text ++ (after.flatMap Piece.text ++ rest) := by
  simp [text, List.append_assoc]

theorem getElem?_selections_split (before after : List Piece) (p : Piece) (rest : List Char) :
    (selections ⟨before ++ p :: after, rest⟩)[before.length]? =
      some (p.selection (before.flatMap Piece.text)) := by
  rw [selections, selectionsBehind_append, List.getElem?_append_right (by simp)]
  simp [selectionsBehind]

/-- A selection is that of one piece among the others. -/
theorem exists_split {index : Nat} {s : Selection} (hs : L.selections[index]? = some s) :
    ∃ before p after rest, L = ⟨before ++ p :: after, rest⟩ ∧ before.length = index ∧
      p.selection (before.flatMap Piece.text) = s := by
  obtain ⟨pieces, rest⟩ := L
  have hindex : index < pieces.length := by
    rw [← length_selections ⟨pieces, rest⟩]
    exact (List.getElem?_eq_some_iff.mp hs).1
  obtain ⟨before, p, after, rfl, rfl, -⟩ := List.exists_of_modify id hindex
  rw [getElem?_selections_split] at hs
  exact ⟨before, p, after, rest, rfl, rfl, Option.some.inj hs⟩

theorem modify_split (f : Piece → Piece) :
    modify ⟨before ++ p :: after, rest⟩ before.length f = ⟨before ++ f p :: after, rest⟩ := by
  rw [modify]
  congr 1
  refine List.ext_getElem (by simp) fun i hi hi' => ?_
  simp only [List.getElem_modify, List.getElem_append, List.getElem_cons]
  grind

/-- One piece is changed: its ends go where they belong, what comes behind it moves along, and what
comes before it stays. -/
theorem map_selections_split {f : Coord → Coord}
    (hproper : Proper ⟨before ++ p :: after, rest⟩)
    (hbackward : q.isBackward = p.isBackward) (hcaptures : q.captures = p.captures)
    (hfixed : ∀ x z, z ≠ [] → before.flatMap Piece.text ++ p.gap = x ++ z →
      f (endCoord x) = endCoord x)
    (hstart : f (endCoord (before.flatMap Piece.text ++ p.gap)) =
      endCoord (before.flatMap Piece.text ++ q.gap))
    (hbehind : ∀ z, f (endCoord (before.flatMap Piece.text ++ p.text ++ z)) =
      endCoord (before.flatMap Piece.text ++ q.text ++ z)) :
    (selections ⟨before ++ p :: after, rest⟩).map (·.map f) =
      selections ⟨before ++ q :: after, rest⟩ := by
  have hstop := hbehind []
  rw [List.append_nil, List.append_nil] at hstop
  simp only [selections, selectionsBehind_append, selectionsBehind, List.map_append, List.map_cons,
    List.nil_append]
  rw [Piece.map_selection hbackward hcaptures hstart hstop, map_selectionsBehind hbehind]
  congr 1
  cases before with
  | nil => rfl
  | cons first before =>
    -- only the first piece may begin with its selection
    have hgap : p.gap ≠ [] := hproper p (by simp)
    refine map_selectionsBehind_of_fixed fun x y hxy => hfixed x (y ++ p.gap) (by simp [hgap]) ?_
    rw [← List.append_assoc, ← hxy, List.nil_append]

/-- Text comes to stand before a selection; a selection that covers nothing moves along. -/
theorem turns_insert_gap (hproper : Proper ⟨before ++ p :: after, rest⟩) (added : List Char) :
    Turns (.insert (byteLength (before.flatMap Piece.text ++ p.gap)) added)
      ⟨before ++ p :: after, rest⟩ ⟨before ++ { p with gap := p.gap ++ added } :: after, rest⟩ := by
  have hold : text ⟨before ++ p :: after, rest⟩ =
      (before.flatMap Piece.text ++ p.gap) ++ (p.body ++ (after.flatMap Piece.text ++ rest)) := by
    simp [text_split, Piece.text]
  have hnew : text ⟨before ++ { p with gap := p.gap ++ added } :: after, rest⟩ =
      (before.flatMap Piece.text ++ p.gap) ++ added ++
        (p.body ++ (after.flatMap Piece.text ++ rest)) := by
    simp [text_split, Piece.text]
  have hbehind := Event.carry_inserted_behind (before.flatMap Piece.text ++ p.gap) added
  refine ⟨by rw [hold, hnew]; exact .insert _ _ _, ?_⟩
  rw [hold, Document.eventOf_insert, ← endCoord_append]
  refine map_selections_split hproper rfl rfl (fun x z hz hxz => ?_) ?_ fun z => ?_
  · rw [hxz]
    exact Event.carry_inserted_of_prefix hz _
  · simpa [List.append_assoc] using hbehind []
  · simpa [Piece.text, List.append_assoc] using hbehind (p.body ++ z)

/-- Text comes to stand at the end of a selection, which covers it then. -/
theorem turns_insert_body (hproper : Proper ⟨before ++ p :: after, rest⟩) (hbody : p.body ≠ [])
    (added : List Char) :
    Turns (.insert (byteLength (before.flatMap Piece.text ++ p.text)) added)
      ⟨before ++ p :: after, rest⟩
      ⟨before ++ { p with body := p.body ++ added } :: after, rest⟩ := by
  have hnew : text ⟨before ++ { p with body := p.body ++ added } :: after, rest⟩ =
      (before.flatMap Piece.text ++ p.text) ++ added ++ (after.flatMap Piece.text ++ rest) := by
    simp [text_split, Piece.text]
  have hfixed : ∀ x z, z ≠ [] → before.flatMap Piece.text ++ p.text = x ++ z → ∀ stop,
      (Event.inserted (endCoord (before.flatMap Piece.text ++ p.text)) stop).carry (endCoord x) =
        endCoord x := by
    intro x z hz hxz stop
    rw [hxz]
    exact Event.carry_inserted_of_prefix hz stop
  refine ⟨by rw [text_split, hnew]; exact .insert _ _ _, ?_⟩
  rw [text_split, Document.eventOf_insert, ← endCoord_append]
  refine map_selections_split hproper rfl rfl (fun x z hz hxz => ?_) ?_ fun z => ?_
  · refine hfixed x (z ++ p.body) (by simp [hz]) ?_ _
    rw [Piece.text, ← List.append_assoc, hxz, List.append_assoc]
  · exact hfixed _ p.body hbody (List.append_assoc _ _ _).symm _
  · have hbehind := Event.carry_inserted_behind (before.flatMap Piece.text ++ p.text) added z
    simpa [Piece.text, List.append_assoc] using hbehind

/-- What a selection covers is erased. -/
theorem turns_erase (hproper : Proper ⟨before ++ p :: after, rest⟩) (hbody : p.body ≠ []) :
    Turns (.erase (byteLength (before.flatMap Piece.text ++ p.gap)) p.body)
      ⟨before ++ p :: after, rest⟩ ⟨before ++ { p with body := [] } :: after, rest⟩ := by
  have hold : text ⟨before ++ p :: after, rest⟩ =
      (before.flatMap Piece.text ++ p.gap) ++ p.body ++ (after.flatMap Piece.text ++ rest) := by
    simp [text_split, Piece.text]
  have hnew : text ⟨before ++ { p with body := [] } :: after, rest⟩ =
      (before.flatMap Piece.text ++ p.gap) ++ (after.flatMap Piece.text ++ rest) := by
    simp [text_split, Piece.text]
  refine ⟨by rw [hold, hnew]; exact .erase _ _ _, ?_⟩
  rw [hold, Document.eventOf_erase, ← endCoord_append]
  refine map_selections_split hproper rfl rfl (fun x z hz hxz => ?_) ?_ fun z => ?_
  · rw [hxz]
    exact Event.carry_erased_of_prefix hz _
  · exact Event.carry_erased_start _ hbody
  · have hbehind := Event.carry_erased_behind (before.flatMap Piece.text ++ p.gap) p.body z
    simpa [Piece.text, List.append_assoc] using hbehind

end Turning

/-! ## Well-formed selections of a layout -/

/-- What a tracker shows of a layout: all selections, with a main one, or one of them. -/
inductive View where
  | all (main : Nat)
  | one (index : Nat)

/-- The selections of a view. -/
def shown (L : Layout) : View → SelectionList
  | .all main => ⟨L.selections, main⟩
  | .one index => .single (L.selections.getD index default)

/-- **`view.Valid n`** — the view fits a layout with that many pieces. -/
def View.Valid (n : Nat) : View → Prop
  | .all main => main < n
  | .one index => index < n

theorem Proper.wellFormed_shown (h : L.Proper) {view : View} (hview : view.Valid L.pieces.length) :
    (L.shown view).WellFormed := by
  cases view with
  | all main =>
    refine ⟨?_, separated_selectionsBehind h⟩
    rwa [SelectionList.length, shown, length_selections]
  | one index => exact SelectionList.single_wellFormed _

/-- The selections of a layout are in its text. -/
theorem within_shown (L : Layout) (main : Nat) : (L.shown (.all main)).Within (IsPosition L.text) :=
  ends_selectionsBehind fun x y hxy => isPosition_iff.mpr
    ⟨x, y ++ L.rest, by rw [text, ← List.nil_append (L.pieces.flatMap _), hxy, List.append_assoc], rfl⟩

/-- Every view follows a change. -/
theorem Turns.carry_shown {change : Change} {L' : Layout} (h : L.Turns change L')
    (hproper : L'.Proper) {view : View} (hview : view.Valid L.pieces.length) :
    (L.shown view).carry (Document.eventOf L.text change) = L'.shown view := by
  have hlength : L'.pieces.length = L.pieces.length := by
    rw [← length_selections, ← h.selections, List.length_map, length_selections]
  cases view with
  | all main =>
    have hview' : View.Valid L'.pieces.length (.all main) := hlength ▸ hview
    rw [SelectionList.carry, SelectionList.mapCoords, SelectionList.transform, shown,
      h.selections]
    exact SelectionList.normalize_of_wellFormed (hproper.wellFormed_shown hview')
  | one index =>
    have hindex : index < L.selections.length := by rwa [length_selections]
    rw [SelectionList.carry, shown, SelectionList.mapCoords_single, shown, ← h.selections]
    rw [List.getD_eq_getElem?_getD, List.getD_eq_getElem?_getD, List.getElem?_map,
      List.getElem?_eq_getElem hindex]
    rfl

end Layout

/-! ## Strokes -/

/-- What a key does at one selection. -/
inductive Stroke where
  /-- Types a character before it. -/
  | before (c : Char)
  /-- Types a character behind it. -/
  | after (c : Char)
  /-- Erases what it covers. -/
  | cut

namespace Stroke

/-- What becomes of the piece. -/
def change (stroke : Stroke) (p : Piece) : Piece :=
  match stroke with
  | .before c => { p with gap := p.gap ++ [c] }
  | .after c =>
    if p.body = [] then { p with gap := p.gap ++ [c] } else { p with body := p.body ++ [c] }
  | .cut => { p with body := [] }

/-- What is done to the document, for the selection. -/
def edit (stroke : Stroke) (s : Selection) (d : Document) :
    Except SelectionError Unit × Document :=
  match stroke with
  | .before c => d.insertText s.start [c]
  | .after c => d.insertText s.stop [c]
  | .cut => d.erase s.start s.stop

/-- No stroke takes away what lies between selections. -/
theorem gap_change_ne_nil (stroke : Stroke) {p : Piece} (h : p.gap ≠ []) :
    (stroke.change p).gap ≠ [] := by
  cases stroke with
  | before c => exact Piece.gap_inserted_ne_nil .before [c] h
  | after c => exact Piece.gap_inserted_ne_nil .after [c] h
  | cut => exact h

end Stroke

namespace Layout

variable {L : Layout}

theorem Proper.modify {f : Piece → Piece} (h : L.Proper) (hf : ∀ p : Piece, p.gap ≠ [] → (f p).gap ≠ [])
    (index : Nat) : (L.modify index f).Proper := by
  intro q hq
  obtain ⟨j, hj⟩ := List.mem_iff_getElem?.mp hq
  rw [List.getElem?_tail, Layout.modify, List.getElem?_modify] at hj
  obtain ⟨p, hp, rfl⟩ := Option.map_eq_some_iff.mp hj
  have hmem : p ∈ L.pieces.tail := by
    rw [← List.getElem?_tail] at hp
    exact List.mem_of_getElem? hp
  split
  · exact hf p (h p hmem)
  · exact h p hmem

end Layout

namespace Document

variable {d e : Document} {L L' : Layout}

theorem insertion_endCoord {a b : List Char} (h : d.text = a ++ b) (added : List Char) :
    d.insertion (endCoord a) added = .insert (byteLength a) added := by
  rw [insertion, h, offset_endCoord]

theorem insertText_eq (d : Document) (place : Coord) (added : List Char) :
    d.insertText place added =
      (unlessFailed ((d.record (d.insertion place added)).apply (d.insertion place added)).1 (),
        ((d.record (d.insertion place added)).apply (d.insertion place added)).2) := by
  refine Prod.ext ?_ rfl
  show (d.insert place added).1.map _ = _
  rw [insert_fst]
  cases ((d.record (d.insertion place added)).apply (d.insertion place added)).1 <;> rfl

/-- An erasure between the ends of two prefixes. -/
theorem erase_endCoord {a removed b : List Char} (h : d.text = a ++ removed ++ b)
    (hremoved : removed ≠ []) :
    d.erase (endCoord a) (endCoord (a ++ removed)) =
      (unlessFailed ((d.record (.erase (byteLength a) removed)).apply
        (.erase (byteLength a) removed)).1 (),
        ((d.record (.erase (byteLength a) removed)).apply (.erase (byteLength a) removed)).2) := by
  have hstart : offset d.text (endCoord a) = byteLength a := by
    rw [h, List.append_assoc, offset_endCoord]
  have hstop : offset d.text (endCoord (a ++ removed)) = byteLength a + byteLength removed := by
    rw [h, offset_endCoord, byteLength_append]
  have hlt : offset d.text (endCoord a) < offset d.text (endCoord (a ++ removed)) := by
    have := byteLength_pos hremoved
    omega
  have herasure : d.erasure (endCoord a) (endCoord (a ++ removed)) =
      .erase (byteLength a) removed := by
    rw [erasure, hstart, hstop, h, slice_append]
  rw [← herasure]
  exact Prod.ext (erase_fst hlt) (erase_snd hlt)

/-- **`d.Lays L`** — the text of the document is laid out so, and no listener fails. -/
structure Lays (d : Document) (L : Layout) : Prop where
  text : d.text = L.text
  proper : L.Proper
  obliging : d.Obliging

/-- **`d.Relays L e L'`** — from `d`, laid out as `L`, to `e`, laid out as `L'`: every tracker that
showed something of `L` shows the same of `L'`. -/
structure Relays (d : Document) (L : Layout) (e : Document) (L' : Layout) : Prop where
  lays : e.Lays L'
  length : L'.pieces.length = L.pieces.length
  follows : ∀ tracker view, Layout.View.Valid L.pieces.length view →
    d.tracked? tracker = some (L.shown view) → e.tracked? tracker = some (L'.shown view)

namespace Relays

theorem refl (h : d.Lays L) : d.Relays L d L := ⟨h, rfl, fun _ _ _ => id⟩

theorem trans {f : Document} {L'' : Layout} (h : d.Relays L e L') (h' : e.Relays L' f L'') :
    d.Relays L f L'' :=
  ⟨h'.lays, h'.length.trans h.length, fun tracker view hview hshown =>
    h'.follows tracker view (h.length ▸ hview) (h.follows tracker view hview hshown)⟩

end Relays

/-- A step that leaves the text and the trackers alone. -/
theorem Lays.aside (h : d.Lays L) (htext : e.text = d.text) (hlisteners : e.listeners = d.listeners) :
    d.Relays L e L :=
  ⟨⟨htext.trans h.text, h.proper, fun l hl => h.obliging l (hlisteners ▸ hl)⟩, rfl,
    fun tracker _ _ hshown => (tracked?_congr hlisteners tracker).trans hshown⟩

/-- A new tracker shows what it is given. -/
theorem Lays.track (h : d.Lays L) (hissued : ∀ l ∈ d.listeners, l.id < d.nextListener)
    {view : Layout.View} (hview : view.Valid L.pieces.length) :
    d.Relays L (d.track (L.shown view)).2 L ∧
      (d.track (L.shown view)).2.tracked? d.nextListener = some (L.shown view) := by
  refine ⟨⟨⟨h.text, h.proper, fun l hl => ?_⟩, rfl, fun tracker _ _ hshown => ?_⟩,
    tracked?_track hissued _⟩
  · rcases List.mem_append.mp hl with hl | hl
    · exact h.obliging l hl
    · rw [List.mem_singleton.mp hl]
      exact (h.proper.wellFormed_shown hview).main_lt
  · have hlt := lt_nextListener_of_tracked? hissued (Option.isSome_of_eq_some hshown)
    exact (tracked?_subscribe hlt.ne _).trans hshown

/-- Giving a tracker one selection leaves the layout alone. -/
theorem Lays.giving (h : d.Lays L) (tracker : Nat) (x : Selection) :
    (d.giving tracker (.single x)).Lays L := by
  refine ⟨h.text, h.proper, fun l hl => ?_⟩
  obtain ⟨old, hold, rfl⟩ := List.mem_map.mp hl
  split
  · exact (SelectionList.single_wellFormed x).main_lt
  · exact h.obliging old hold

/-- **A change that turns layouts** — it succeeds, and all trackers follow. -/
theorem Lays.change (h : d.Lays L) {change : Change} (hturns : L.Turns change L')
    (hproper : L'.Proper) :
    unlessFailed ((d.record change).apply change).1 () = .ok () ∧
      d.Relays L ((d.record change).apply change).2 L' := by
  have hrecord : d.Relays L (d.record change) L :=
    h.aside (text_record d change) (listeners_record d change)
  obtain ⟨hok, hobliging⟩ := hrecord.lays.obliging.apply change
  refine ⟨by rw [hok]; rfl, hrecord.trans ⟨⟨?_, hproper, hobliging⟩, ?_, ?_⟩⟩
  · rw [text_apply, hrecord.lays.text, hturns.text.applyTo_eq]
  · rw [← Layout.length_selections, ← hturns.selections, List.length_map, Layout.length_selections]
  · intro tracker view hview hshown
    rw [tracked?_apply hshown, hrecord.lays.text, hturns.carry_shown hproper hview]

theorem Lays.insertText (h : d.Lays L) {a b added : List Char} (htext : L.text = a ++ b)
    (hturns : L.Turns (.insert (byteLength a) added) L') (hproper : L'.Proper) :
    (d.insertText (endCoord a) added).1 = .ok () ∧
      d.Relays L (d.insertText (endCoord a) added).2 L' := by
  rw [insertText_eq, insertion_endCoord (h.text.trans htext)]
  exact h.change hturns hproper

theorem Lays.erase (h : d.Lays L) {a removed b : List Char} (htext : L.text = a ++ removed ++ b)
    (hremoved : removed ≠ []) (hturns : L.Turns (.erase (byteLength a) removed) L')
    (hproper : L'.Proper) :
    (d.erase (endCoord a) (endCoord (a ++ removed))).1 = .ok () ∧
      d.Relays L (d.erase (endCoord a) (endCoord (a ++ removed))).2 L' := by
  rw [erase_endCoord (h.text.trans htext) hremoved]
  exact h.change hturns hproper

/-- **One insertion** — it changes one piece, and every tracker follows. -/
theorem relays_insertText (h : d.Lays L) (position : InsertPosition) (added : List Char) {index : Nat}
    {s : Selection} (hs : L.selections[index]? = some s) :
    (d.insertText (placeOf position s) added).1 = .ok () ∧
      d.Relays L (d.insertText (placeOf position s) added).2
        (L.modify index (Piece.inserted position added)) := by
  have hproper := h.proper.modify (fun _ => Piece.gap_inserted_ne_nil position added) index
  obtain ⟨before, p, after, rest, rfl, rfl, rfl⟩ := Layout.exists_split hs
  rw [Layout.modify_split] at hproper ⊢
  have hgap : Layout.text ⟨before ++ p :: after, rest⟩ =
      (before.flatMap Piece.text ++ p.gap) ++ (p.body ++ (after.flatMap Piece.text ++ rest)) := by
    simp [Layout.text_split, Piece.text]
  cases position with
  | before =>
    rw [placeOf, p.start_selection]
    exact h.insertText hgap (Layout.turns_insert_gap h.proper added) hproper
  | after =>
    rw [placeOf, p.stop_selection]
    by_cases hbody : p.body = []
    · have hstop : p.text = p.gap := by rw [Piece.text, hbody, List.append_nil]
      rw [Piece.inserted_of_point added hbody] at hproper ⊢
      rw [hstop]
      exact h.insertText hgap (Layout.turns_insert_gap h.proper added) hproper
    · rw [Piece.inserted_of_body added hbody] at hproper ⊢
      exact h.insertText (Layout.text_split ..) (Layout.turns_insert_body h.proper hbody added)
        hproper

/-- **One stroke** — it changes one piece, and every tracker follows. -/
theorem relays_stroke (h : d.Lays L) (stroke : Stroke) {index : Nat} {s : Selection}
    (hs : L.selections[index]? = some s) :
    (stroke.edit s d).1 = .ok () ∧
      d.Relays L (stroke.edit s d).2 (L.modify index stroke.change) := by
  cases stroke with
  | before c => exact relays_insertText h .before [c] hs
  | after c => exact relays_insertText h .after [c] hs
  | cut =>
    have hproper := h.proper.modify (fun _ => Stroke.cut.gap_change_ne_nil) index
    obtain ⟨before, p, after, rest, rfl, rfl, rfl⟩ := Layout.exists_split hs
    rw [Layout.modify_split] at hproper ⊢
    rw [Stroke.edit, p.start_selection, p.stop_selection]
    unfold Stroke.change at hproper ⊢
    by_cases hbody : p.body = []
    · -- there is nothing to erase
      have hstop : p.text = p.gap := by rw [Piece.text, hbody, List.append_nil]
      have hsame : { p with body := [] } = p := by rw [← hbody]
      simp only [hsame]
      rw [hstop, d.erase_of_le _ _ le_rfl]
      exact ⟨rfl, .refl h⟩
    · have htext : Layout.text ⟨before ++ p :: after, rest⟩ =
          (before.flatMap Piece.text ++ p.gap) ++ p.body ++ (after.flatMap Piece.text ++ rest) := by
        simp [Layout.text_split, Piece.text]
      rw [Piece.text, ← List.append_assoc]
      exact h.erase htext hbody (Layout.turns_erase h.proper hbody) hproper

end Document

/-! ## Strokes at several selections -/

namespace Layout

variable {L : Layout} {f g : Piece → Piece}

/-- The layout with the first pieces changed, as many as that. -/
def below (L : Layout) (n : Nat) (f : Piece → Piece) : Layout :=
  { L with pieces := L.pieces.mapIdx fun index p => if index < n then f p else p }

/-- The layout with the first pieces changed, as many as that, each in a way of its own. -/
def upTo (L : Layout) (n : Nat) (f : Nat → Piece → Piece) : Layout :=
  { L with pieces := L.pieces.mapIdx fun index p => if index < n then f index p else p }

/-- The layout with the pieces changed that a view shows. -/
def through (L : Layout) (view : View) (f : Piece → Piece) : Layout :=
  match view with
  | .all _ => { L with pieces := L.pieces.map f }
  | .one index => L.modify index f

@[simp] theorem upTo_zero (L : Layout) (f : Nat → Piece → Piece) : L.upTo 0 f = L := by
  obtain ⟨pieces, rest⟩ := L
  rw [upTo]
  congr 1
  exact List.ext_getElem (by simp) fun i hi hi' => by simp

theorem below_eq_upTo (L : Layout) (n : Nat) (f : Piece → Piece) :
    L.below n f = L.upTo n fun _ => f := rfl

@[simp] theorem below_zero (L : Layout) (f : Piece → Piece) : L.below 0 f = L := L.upTo_zero _

theorem below_length (L : Layout) (f : Piece → Piece) (main : Nat) :
    L.below L.pieces.length f = L.through (.all main) f := by
  obtain ⟨pieces, rest⟩ := L
  rw [below, through]
  congr 1
  refine List.ext_getElem (by simp) fun i hi hi' => ?_
  have hlt : i < pieces.length := by simpa using hi'
  simp [hlt]

/-- From the last piece to the first one. -/
theorem modify_upTo (L : Layout) (n : Nat) (f : Nat → Piece → Piece) :
    (L.modify n (f n)).upTo n f = L.upTo (n + 1) f := by
  rw [upTo, upTo, modify]
  congr 1
  refine List.ext_getElem (by simp) fun i hi hi' => ?_
  simp only [List.getElem_mapIdx, List.getElem_modify]
  grind

/-- From the first piece to the last one. -/
theorem below_modify (L : Layout) (n : Nat) (f : Piece → Piece) :
    (L.below n f).modify n f = L.below (n + 1) f := by
  rw [below, below, modify]
  congr 1
  refine List.ext_getElem (by simp) fun i hi hi' => ?_
  simp only [List.getElem_mapIdx, List.getElem_modify]
  grind

theorem through_through (L : Layout) (view : View) (f g : Piece → Piece) :
    (L.through view f).through view g = L.through view (g ∘ f) := by
  cases view with
  | all main => simp [through]
  | one index =>
    simp only [through, modify]
    congr 1
    refine List.ext_getElem (by simp) fun i hi hi' => ?_
    simp only [List.getElem_modify, Function.comp_apply]
    grind

theorem through_id (L : Layout) (view : View) : L.through view id = L := by
  obtain ⟨pieces, rest⟩ := L
  cases view <;> simp [through, modify]

end Layout

namespace Document

variable {d : Document} {L : Layout}

theorem selections_of_tracked? {tracker : Nat} {l : SelectionList}
    (h : d.tracked? tracker = some l) : d.selections tracker = l := by
  rw [selections, h]
  rfl

/-- By induction on the number of selections that are still to come, the last of them first. -/
theorem relays_editEach
    {edit : Nat → Selection → Document → Except SelectionError Unit × Document}
    {change : Nat → Piece → Piece}
    (hedit : ∀ {d L index s}, d.Lays L → L.selections[index]? = some s →
      (edit index s d).1 = .ok () ∧ d.Relays L (edit index s d).2 (L.modify index (change index)))
    (h : d.Lays L) {tracker main n : Nat} (hmain : main < L.pieces.length)
    (hn : n ≤ L.pieces.length) (hshown : d.tracked? tracker = some (L.shown (.all main))) :
    (d.editEach tracker edit n).1 = .ok () ∧
      d.Relays L (d.editEach tracker edit n).2 (L.upTo n change) := by
  induction n generalizing d L with
  | zero =>
    rw [Layout.upTo_zero]
    exact ⟨rfl, .refl h⟩
  | succ n ih =>
    have hn' : n < L.selections.length := by
      rw [Layout.length_selections]
      exact hn
    have hget : (d.selections tracker).get? n = some L.selections[n] := by
      rw [selections_of_tracked? hshown]
      exact List.getElem?_eq_getElem hn'
    have hfirst := hedit h (List.getElem?_eq_getElem hn')
    rw [editEach, hget]
    dsimp only
    generalize edit n L.selections[n] d = done at hfirst ⊢
    obtain ⟨result, e⟩ := done
    obtain ⟨hok, hrelays⟩ := hfirst
    dsimp only at hok
    subst hok
    have hlength := hrelays.length
    obtain ⟨hok', hrelays'⟩ := ih hrelays.lays (hlength ▸ hmain) (by omega)
      (hrelays.follows tracker _ hmain hshown)
    rw [Layout.modify_upTo] at hrelays'
    exact ⟨hok', hrelays.trans hrelays'⟩

/-- **One stroke at every selection of a tracker** — it changes the pieces that the tracker shows,
and every tracker follows. -/
theorem relays_editAll (h : d.Lays L) (stroke : Stroke) {tracker : Nat} {view : Layout.View}
    (hview : view.Valid L.pieces.length) (hshown : d.tracked? tracker = some (L.shown view)) :
    (d.editAll tracker fun _ => stroke.edit).1 = .ok () ∧
      d.Relays L (d.editAll tracker fun _ => stroke.edit).2 (L.through view stroke.change) := by
  rw [editAll, selections_of_tracked? hshown]
  cases view with
  | all main =>
    have hlength : (L.shown (.all main)).length = L.pieces.length := Layout.length_selections L
    rw [hlength, ← Layout.below_length, Layout.below_eq_upTo]
    exact relays_editEach (fun h => relays_stroke h stroke) h hview le_rfl hshown
  | one index =>
    have hindex : index < L.selections.length := by
      rw [Layout.length_selections]
      exact hview
    have hget : (d.selections tracker).get? 0 = some L.selections[index] := by
      rw [selections_of_tracked? hshown, Layout.shown, List.getD_eq_getElem?_getD,
        List.getElem?_eq_getElem hindex]
      rfl
    have hstroke := relays_stroke h stroke (List.getElem?_eq_getElem hindex)
    have hedit : d.editEach tracker (fun _ => stroke.edit) 1 =
        stroke.edit L.selections[index] d := by
      rw [editEach, hget]
      dsimp only
      rcases stroke.edit L.selections[index] d with ⟨_ | _, e⟩ <;> rfl
    have hlength : (L.shown (.one index)).length = 1 := rfl
    rw [hlength, hedit]
    exact hstroke

end Document

/-! ## Typing -/

/-- The stroke that types a character on one side of a selection. -/
def Stroke.typing : InsertPosition → Char → Stroke
  | .before => .before
  | .after => .after

namespace Document

theorem insertAll_singleton (d : Document) (tracker : Nat) (position : InsertPosition) (c : Char) :
    d.insertAll tracker [String.singleton c] position =
      d.editAll tracker fun _ => (Stroke.typing position c).edit := by
  have htext : ∀ index, ([String.singleton c].getD index (String.singleton c)).toList = [c] := by
    intro index
    cases index <;> simp
  have hedit : (fun index (s : Selection) (d : Document) => d.insertText (placeOf position s)
      ([String.singleton c].getD index (String.singleton c)).toList) =
      fun _ => (Stroke.typing position c).edit := by
    funext index s d
    rw [htext]
    cases position <;> rfl
  exact congrArg (d.editAll tracker) hedit

theorem eraseAll_eq (d : Document) (tracker : Nat) :
    d.eraseAll tracker = d.editAll tracker fun _ => Stroke.cut.edit := rfl

end Document

end ModalEdit
