import ModalEdit.Proofs.Coordinates
import ModalEdit.Text.Position

/-!
# Positions as prefixes

A position of a text is what lies behind one of its prefixes. `endCoord` turns prefixes into
coordinates, and it is additive: the coordinate behind `a ++ b` is the one behind `a`, advanced by
the extent of `b` (`endCoord_append`). Offsets are the byte lengths of the same prefixes, so every
law that relates coordinates to offsets is read off at a prefix.

Main statements: `coordAt_byteLength` and `offset_endCoord` (both translations at a prefix),
`isPosition_iff` (the coordinates that clamping leaves alone are those behind a prefix) and
`cut_offset` (every coordinate cuts its text in two).
-/

namespace ModalEdit.Text

/-! ## Extents of texts -/

/-- The extent of a text of one character. -/
def charExtent (x : Char) : Coord := if x = '\n' then ⟨1, 0⟩ else ⟨0, x.utf8Size⟩

theorem charExtent_ne_origin (x : Char) : charExtent x ≠ .origin := by
  have := x.utf8Size_pos
  unfold charExtent Coord.origin
  split <;> simp only [ne_eq, Coord.mk.injEq] <;> omega

@[simp] theorem endCoord_nil : endCoord [] = .origin := rfl

theorem endCoord_cons (x : Char) (text : List Char) :
    endCoord (x :: text) = (charExtent x).advance (endCoord text) := by
  simp only [endCoord, coordAt, byteLength_cons, Nat.not_lt.mpr (Nat.le_add_right _ _), if_false,
    Nat.add_sub_cancel_left]
  -- of the rest, nothing but the coordinate behind it matters
  generalize coordAt text (byteLength text) = c
  obtain ⟨line, column⟩ := c
  by_cases hx : x = '\n' <;> by_cases hl : line = 0 <;>
    simp [charExtent, Coord.advance, hx, hl, Nat.add_comm]

theorem endCoord_append (a b : List Char) :
    endCoord (a ++ b) = (endCoord a).advance (endCoord b) := by
  induction a with
  | nil => simp
  | cons x a ih => rw [List.cons_append, endCoord_cons, endCoord_cons, ih, Coord.advance_assoc]

@[simp] theorem endCoord_eq_origin_iff {text : List Char} : endCoord text = .origin ↔ text = [] := by
  constructor
  · intro h
    cases text with
    | nil => rfl
    | cons x text =>
      rw [endCoord_cons] at h
      have hlt := lt_of_lt_of_le
        (Coord.lt_advance .origin (charExtent_ne_origin x)) (Coord.le_advance _ (endCoord text))
      rw [Coord.origin_advance, h] at hlt
      exact absurd hlt (lt_irrefl _)
  · rintro rfl
    rfl

theorem endCoord_lt_append (a : List Char) {b : List Char} (hb : b ≠ []) :
    endCoord a < endCoord (a ++ b) := by
  rw [endCoord_append]
  exact Coord.lt_advance _ (by simpa using hb)

theorem byteLength_pos {text : List Char} (h : text ≠ []) : 0 < byteLength text := by
  cases text with
  | nil => exact absurd rfl h
  | cons x text => exact Nat.add_pos_left x.utf8Size_pos _

/-! ## The two translations at a prefix -/

@[simp] theorem coordAt_zero (text : List Char) : coordAt text 0 = .origin := by
  cases text with
  | nil => rfl
  | cons x text => simp [coordAt, x.utf8Size_pos, Coord.origin]

theorem coordAt_byteLength (a b : List Char) : coordAt (a ++ b) (byteLength a) = endCoord a := by
  induction a with
  | nil => simp
  | cons x a ih =>
    simp only [endCoord] at ih ⊢
    simp only [List.cons_append, coordAt, byteLength_cons, Nat.not_lt.mpr (Nat.le_add_right _ _),
      if_false, Nat.add_sub_cancel_left, ih]

@[simp] theorem offset_origin (text : List Char) : offset text .origin = 0 := by
  cases text with
  | nil => rfl
  | cons x text => simp [offset, Coord.origin, x.utf8Size_pos]

theorem offset_cons_advance (x : Char) (text : List Char) (c : Coord) :
    offset (x :: text) ((charExtent x).advance c) = x.utf8Size + offset text c := by
  obtain ⟨line, column⟩ := c
  by_cases hx : x = '\n'
  · cases line with
    | zero => simp [charExtent, Coord.advance, hx, offset]
    | succ line =>
      simp only [charExtent, Coord.advance, hx, if_true, Nat.add_one_ne_zero, if_false]
      rw [Nat.add_comm 1, offset, if_pos rfl]
  · cases line with
    | zero => simp [charExtent, Coord.advance, hx, offset]
    | succ line => simp [charExtent, Coord.advance, hx, offset]

theorem offset_endCoord (a b : List Char) : offset (a ++ b) (endCoord a) = byteLength a := by
  induction a with
  | nil => simp
  | cons x a ih => rw [List.cons_append, endCoord_cons, offset_cons_advance, ih, byteLength_cons]

/-! ## Positions -/

/-- **`IsPosition text c`** — `c` is a valid position of `text`: its line is in range and its column
lies on a character boundary, so that clamping leaves it unchanged. -/
def IsPosition (text : List Char) (c : Coord) : Prop := clamp text c = c

/-- Of two cuts of one text, the second lies strictly before the first or not. -/
theorem cut_cases {a b x y : List Char} (h : a ++ b = x ++ y) :
    (∃ z, z ≠ [] ∧ a = x ++ z ∧ y = z ++ b) ∨ ∃ z, x = a ++ z ∧ b = z ++ y := by
  rcases List.append_eq_append_iff.mp h with ⟨z, rfl, rfl⟩ | ⟨z, rfl, rfl⟩
  · exact .inr ⟨z, rfl, rfl⟩
  cases z with
  | nil => exact .inr ⟨[], by simp, by simp⟩
  | cons c z => exact .inl ⟨c :: z, by simp, rfl, rfl⟩

/-- Every coordinate cuts its text at the offset that it stands for. -/
theorem cut_offset (text : List Char) (c : Coord) :
    ∃ a b, text = a ++ b ∧ byteLength a = offset text c :=
  ⟨takeBytes text (offset text c), dropBytes text (offset text c),
    (takeBytes_append_dropBytes text _).symm,
    (byteLength_takeBytes text _).trans (floorBoundary_offset text c)⟩

theorem clamp_eq_endCoord {a b : List Char} {c : Coord} (h : byteLength a = offset (a ++ b) c) :
    clamp (a ++ b) c = endCoord a := by
  rw [clamp, ← h, coordAt_byteLength]

theorem isPosition_endCoord (a b : List Char) : IsPosition (a ++ b) (endCoord a) :=
  clamp_eq_endCoord (offset_endCoord a b).symm

theorem isPosition_iff {text : List Char} {c : Coord} :
    IsPosition text c ↔ ∃ a b, text = a ++ b ∧ endCoord a = c := by
  constructor
  · intro h
    obtain ⟨a, b, rfl, hab⟩ := cut_offset text c
    exact ⟨a, b, rfl, (clamp_eq_endCoord hab).symm.trans h⟩
  · rintro ⟨a, b, rfl, rfl⟩
    exact isPosition_endCoord a b

theorem isPosition_clamp (text : List Char) (c : Coord) : IsPosition text (clamp text c) := by
  obtain ⟨a, b, rfl, hab⟩ := cut_offset text c
  rw [clamp_eq_endCoord hab]
  exact isPosition_endCoord a b

theorem isPosition_origin (text : List Char) : IsPosition text .origin :=
  isPosition_endCoord [] text

end ModalEdit.Text
