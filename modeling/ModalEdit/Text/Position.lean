import ModalEdit.Coord
import ModalEdit.Text.Bytes

/-!
# Positions in a text

A position is written either as a byte offset or as a coordinate. `offset` and
`coordAt` translate between the two. A coordinate that names no position is
moved back to the nearest one before it; an offset behind the end means the end.

Main statement: `offset` never points behind the end and never inside a
character (`offset_le`, `floorBoundary_offset`).
-/

namespace ModalEdit.Text

/-- The byte offset of the last position at or before a coordinate. -/
def offset : List Char → Coord → Nat
  | [], _ => 0
  | x :: text, ⟨0, column⟩ =>
    if x = '\n' ∨ column < x.utf8Size then 0
    else x.utf8Size + offset text ⟨0, column - x.utf8Size⟩
  | x :: text, ⟨line + 1, column⟩ =>
    x.utf8Size + offset text ⟨if x = '\n' then line else line + 1, column⟩

/-- The coordinate of a byte offset. -/
def coordAt : List Char → Nat → Coord
  | [], _ => .origin
  | x :: text, n =>
    if n < x.utf8Size then ⟨0, n⟩
    else
      let c := coordAt text (n - x.utf8Size)
      if x = '\n' then ⟨c.line + 1, c.column⟩
      else if c.line = 0 then ⟨0, x.utf8Size + c.column⟩
      else c

/-- The last position at or before a coordinate. -/
def clamp (text : List Char) (c : Coord) : Coord := coordAt text (offset text c)

/-- The position behind the last character. -/
def endCoord (text : List Char) : Coord := coordAt text (byteLength text)

/-- The position one character further, unless that is behind the end. -/
def nextCoord (text : List Char) (c : Coord) : Coord :=
  let n := offset text c
  match dropBytes text n with
  | [] => coordAt text n
  | x :: _ => coordAt text (n + x.utf8Size)

/-- The position one character back, unless that is before the start. -/
def prevCoord (text : List Char) (c : Coord) : Coord :=
  let n := offset text c
  match (takeBytes text n).getLast? with
  | none => coordAt text n
  | some x => coordAt text (n - x.utf8Size)

/-- The text between two coordinates, which may come in either order. -/
def content (text : List Char) (a b : Coord) : List Char :=
  let m := offset text a
  let n := offset text b
  slice text (min m n) (max m n)

/-- The lines of a text, each with its line end; the last one has none and may be empty. -/
def lines : List Char → List (List Char)
  | [] => [[]]
  | x :: text =>
    if x = '\n' then [x] :: lines text
    else match lines text with
      | [] => [[x]]
      | line :: rest => (x :: line) :: rest

theorem offset_le (text : List Char) (c : Coord) : offset text c ≤ byteLength text := by
  fun_induction offset text c with
  | case1 => simp
  | case2 => simp
  | case3 x text column h ih =>
    simp only [byteLength_cons]
    omega
  | case4 x text line column ih =>
    simp only [byteLength_cons]
    omega

theorem floorBoundary_offset (text : List Char) (c : Coord) :
    floorBoundary text (offset text c) = offset text c := by
  fun_induction offset text c with
  | case1 => rfl
  | case2 x text column h =>
    have := floorBoundary_le (x :: text) 0
    omega
  | case3 x text column h ih => simp [floorBoundary, ih]
  | case4 x text line column ih => simp [floorBoundary, ih]

theorem flatten_lines (text : List Char) : (lines text).flatten = text := by
  induction text with
  | nil => rfl
  | cons x text ih =>
    unfold lines
    split
    · simp [ih]
    · split <;> simp_all

end ModalEdit.Text
