import Mathlib.Order.Bounds.Defs
import ModalEdit.Proofs.TokenSpans
import ModalEdit.Text.LineIndex

/-!
# Texts line by line

A text is a line without a line end, or a line with one and a text behind it (`line_induction`). So
coordinates and offsets are understood line by line.
-/

namespace ModalEdit.Text

/-! ## Boundaries -/

theorem floorBoundary_le_byteLength (text : List Char) (n : Nat) :
    floorBoundary text n ≤ byteLength text := by
  rw [← byteLength_takeBytes]
  conv => rhs; rw [← takeBytes_append_dropBytes text n]
  rw [byteLength_append]
  exact Nat.le_add_right _ _

theorem isBoundary_floorBoundary (text : List Char) (n : Nat) :
    IsBoundary text (floorBoundary text n) := by
  have hcut := isBoundary_byteLength (takeBytes text n) (dropBytes text n)
  rwa [takeBytes_append_dropBytes, byteLength_takeBytes] at hcut

theorem floorBoundary_monotone (text : List Char) : Monotone (floorBoundary text) := by
  induction text with
  | nil => exact monotone_const
  | cons x text ih =>
    intro m n hmn
    simp only [floorBoundary]
    have hrest := ih (Nat.sub_le_sub_right hmn x.utf8Size)
    split <;> split <;> omega

/-- Inside a first part, the boundaries are those of the part. -/
theorem floorBoundary_append_min (a b : List Char) (n : Nat) :
    floorBoundary (a ++ b) (min n (byteLength a)) = floorBoundary a n := by
  induction a generalizing n with
  | nil => simpa [floorBoundary] using Nat.le_zero.mp (floorBoundary_le b 0)
  | cons x a ih =>
    have hrest := ih (n - x.utf8Size)
    simp only [List.cons_append, floorBoundary, byteLength_cons]
    by_cases h : x.utf8Size ≤ n
    · have hsub : min n (x.utf8Size + byteLength a) - x.utf8Size =
          min (n - x.utf8Size) (byteLength a) := by omega
      rw [if_pos (by omega), if_pos h, hsub, hrest]
    · rw [if_neg (by omega), if_neg h]

/-! ## Behind a first part -/

theorem coordAt_append (a b : List Char) (n : Nat) :
    coordAt (a ++ b) (byteLength a + n) = (endCoord a).advance (coordAt b n) := by
  induction a with
  | nil => simp
  | cons x a ih =>
    have hbehind : ¬ byteLength (x :: a) + n < x.utf8Size := by
      rw [byteLength_cons]
      omega
    have hsub : byteLength (x :: a) + n - x.utf8Size = byteLength a + n := by
      rw [byteLength_cons]
      omega
    rw [endCoord_cons, Coord.advance_assoc, ← ih, List.cons_append, coordAt, if_neg hbehind, hsub]
    generalize coordAt (a ++ b) (byteLength a + n) = c
    by_cases hx : x = '\n' <;> by_cases hline : c.line = 0 <;>
      simp [charExtent, Coord.advance, hx, hline, Nat.add_comm]

theorem offset_append (a b : List Char) (c : Coord) :
    offset (a ++ b) ((endCoord a).advance c) = byteLength a + offset b c := by
  induction a with
  | nil => simp
  | cons x a ih =>
    rw [endCoord_cons, Coord.advance_assoc, List.cons_append, offset_cons_advance, ih,
      byteLength_cons, Nat.add_assoc]

/-! ## Lines -/

/-- **Induction on lines** — a text is a last line without a line end, or begins with a line that
has one. -/
@[elab_as_elim]
theorem line_induction {motive : List Char → Prop}
    (last : ∀ text, '\n' ∉ text → motive text)
    (line : ∀ body rest, '\n' ∉ body → motive rest → motive (body ++ '\n' :: rest))
    (text : List Char) : motive text := by
  induction hlength : text.length using Nat.strong_induction_on generalizing text with
  | _ length ih =>
    by_cases hmem : '\n' ∈ text
    · obtain ⟨body, rest, rfl, hbody⟩ := List.eq_append_cons_of_mem hmem
      refine line body rest hbody (ih rest.length ?_ rest rfl)
      simp only [List.length_append, List.length_cons] at hlength
      omega
    · exact last text hmem

section Line

variable {body : List Char} (h : '\n' ∉ body) (rest : List Char)

include h

theorem lines_of_notMem : lines body = [body] := by
  induction body with
  | nil => rfl
  | cons x body ih =>
    obtain ⟨hx, hbody⟩ := not_or.mp (mt List.mem_cons.mpr h)
    rw [lines, if_neg (Ne.symm hx), ih hbody]

theorem lines_line : lines (body ++ '\n' :: rest) = (body ++ ['\n']) :: lines rest := by
  induction body with
  | nil => simp [lines]
  | cons x body ih =>
    obtain ⟨hx, hbody⟩ := not_or.mp (mt List.mem_cons.mpr h)
    rw [List.cons_append, lines, if_neg (Ne.symm hx), ih hbody]
    rfl

theorem coordAt_of_le {n : Nat} (hn : n ≤ byteLength body) :
    coordAt (body ++ rest) n = ⟨0, n⟩ := by
  induction body generalizing n with
  | nil =>
    obtain rfl : n = 0 := Nat.le_zero.mp hn
    exact coordAt_zero rest
  | cons x body ih =>
    obtain ⟨hx, hbody⟩ := not_or.mp (mt List.mem_cons.mpr h)
    rw [byteLength_cons] at hn
    rw [List.cons_append, coordAt]
    split
    · rfl
    · rw [ih hbody (by omega), if_neg (Ne.symm hx)]
      simp only [if_true, Coord.mk.injEq, true_and]
      omega

theorem endCoord_of_notMem : endCoord body = ⟨0, byteLength body⟩ := by
  have hend := coordAt_of_le h [] le_rfl
  rwa [List.append_nil] at hend

theorem endCoord_line : endCoord (body ++ ['\n']) = ⟨1, 0⟩ := by
  rw [endCoord_append, endCoord_of_notMem h]
  rfl

/-- What lies behind a line lies one line further down. -/
theorem coordAt_line (n : Nat) : coordAt (body ++ '\n' :: rest) (byteLength body + 1 + n) =
    ⟨(coordAt rest n).line + 1, (coordAt rest n).column⟩ := by
  have hbehind := coordAt_append (body ++ ['\n']) rest n
  rw [endCoord_line h, List.append_assoc, byteLength_append] at hbehind
  refine hbehind.trans ?_
  generalize coordAt rest n = c
  by_cases hc : c.line = 0 <;> simp [Coord.advance, hc, Nat.add_comm]

theorem offset_line (line column : Nat) : offset (body ++ '\n' :: rest) ⟨line + 1, column⟩ =
    byteLength body + 1 + offset rest ⟨line, column⟩ := by
  have hbehind := offset_append (body ++ ['\n']) rest ⟨line, column⟩
  have hadvance : (⟨1, 0⟩ : Coord).advance ⟨line, column⟩ = ⟨line + 1, column⟩ := by
    by_cases hline : line = 0 <;> simp [Coord.advance, hline, Nat.add_comm]
  rwa [endCoord_line h, hadvance, List.append_assoc, byteLength_append] at hbehind

/-- On its own line, a column goes as far as the line does. -/
theorem offset_of_line_zero (hrest : ∀ x ∈ rest.head?, x = '\n') (column : Nat) :
    offset (body ++ rest) ⟨0, column⟩ = floorBoundary body column := by
  induction body generalizing column with
  | nil =>
    cases rest with
    | nil => rfl
    | cons x rest => simp [offset, floorBoundary, hrest x rfl]
  | cons x body ih =>
    obtain ⟨hx, hbody⟩ := not_or.mp (mt List.mem_cons.mpr h)
    simp only [List.cons_append, offset, floorBoundary, Ne.symm hx, false_or, ih hbody]
    by_cases hcolumn : column < x.utf8Size
    · rw [if_pos hcolumn, if_neg (by omega)]
    · rw [if_neg hcolumn, if_pos (by omega)]

/-- Behind the last line there is nothing. -/
theorem offset_behind_last (line column : Nat) :
    offset body ⟨line + 1, column⟩ = byteLength body := by
  induction body with
  | nil => rfl
  | cons x body ih =>
    obtain ⟨hx, hbody⟩ := not_or.mp (mt List.mem_cons.mpr h)
    rw [offset, if_neg (Ne.symm hx), ih hbody, byteLength_cons]

theorem clamp_of_line_zero (hrest : ∀ x ∈ rest.head?, x = '\n') (column : Nat) :
    clamp (body ++ rest) ⟨0, column⟩ = ⟨0, floorBoundary body column⟩ := by
  rw [clamp, offset_of_line_zero h rest hrest,
    coordAt_of_le h rest (floorBoundary_le_byteLength body column)]

theorem clamp_line (line column : Nat) : clamp (body ++ '\n' :: rest) ⟨line + 1, column⟩ =
    ⟨(clamp rest ⟨line, column⟩).line + 1, (clamp rest ⟨line, column⟩).column⟩ := by
  rw [clamp, offset_line h rest, coordAt_line h rest]
  rfl

theorem clamp_behind_last (line column : Nat) :
    clamp body ⟨line + 1, column⟩ = ⟨0, byteLength body⟩ := by
  rw [clamp, offset_behind_last h]
  exact endCoord_of_notMem h

end Line

/-! ## Order -/

theorem clamp_le (text : List Char) (c : Coord) : clamp text c ≤ c := by
  induction text using line_induction generalizing c with
  | last body h =>
    obtain ⟨_ | line, column⟩ := c
    · have hclamp := clamp_of_line_zero h [] (by simp) column
      rw [List.append_nil] at hclamp
      rw [hclamp]
      exact .inr ⟨rfl, floorBoundary_le body column⟩
    · rw [clamp_behind_last h]
      exact .inl (Nat.succ_pos line)
  | line body rest h ih =>
    obtain ⟨_ | line, column⟩ := c
    · rw [clamp_of_line_zero h _ (by simp)]
      exact .inr ⟨rfl, floorBoundary_le body column⟩
    · rw [clamp_line h]
      have hrest := ih ⟨line, column⟩
      simp only [Coord.le_def] at hrest ⊢
      omega

theorem offset_monotone (text : List Char) : Monotone (offset text) := by
  induction text using line_induction with
  | last body h =>
    have hzero := offset_of_line_zero h [] (by simp)
    rw [List.append_nil] at hzero
    rintro ⟨_ | line, column⟩ ⟨_ | line', column'⟩ hle
    · rw [hzero, hzero]
      exact floorBoundary_monotone body (by simpa [Coord.le_def] using hle)
    · exact offset_behind_last h line' column' ▸ offset_le body _
    · simp [Coord.le_def] at hle
    · rw [offset_behind_last h, offset_behind_last h]
  | line body rest h ih =>
    have hzero := offset_of_line_zero h ('\n' :: rest) (by simp)
    rintro ⟨_ | line, column⟩ ⟨_ | line', column'⟩ hle
    · rw [hzero, hzero]
      exact floorBoundary_monotone body (by simpa [Coord.le_def] using hle)
    · rw [hzero, offset_line h]
      have := floorBoundary_le_byteLength body column
      omega
    · simp [Coord.le_def] at hle
    · rw [offset_line h, offset_line h]
      exact Nat.add_le_add_left (ih (by simpa [Coord.le_def] using hle)) _

theorem offset_coordAt {text : List Char} {n : Nat} (h : IsBoundary text n) :
    offset text (coordAt text n) = n := by
  obtain ⟨a, b, rfl, rfl⟩ := h.exists_cut
  rw [coordAt_byteLength, offset_endCoord]

theorem isPosition_coordAt {text : List Char} {n : Nat} (h : IsBoundary text n) :
    IsPosition text (coordAt text n) := by
  rw [IsPosition, clamp, offset_coordAt h]

/-- Of two boundaries, the coordinate of the one that comes first comes first. -/
theorem coordAt_lt_coordAt {text : List Char} {m n : Nat} (hm : IsBoundary text m)
    (hn : IsBoundary text n) (h : m < n) : coordAt text m < coordAt text n := by
  obtain ⟨a, b, rfl, rfl⟩ := hm.exists_cut
  obtain ⟨x, y, hxy, rfl⟩ := hn.exists_cut
  obtain ⟨z, -, rfl, -⟩ | ⟨z, rfl, rfl⟩ := cut_cases hxy
  · -- the second cut does not come first
    rw [byteLength_append] at h
    omega
  · have hz : z ≠ [] := by
      rintro rfl
      simp at h
    rw [coordAt_byteLength, hxy, coordAt_byteLength]
    exact endCoord_lt_append a hz

theorem coordAt_le_coordAt_iff {text : List Char} {m n : Nat} (hm : IsBoundary text m)
    (hn : IsBoundary text n) : coordAt text m ≤ coordAt text n ↔ m ≤ n := by
  rcases lt_trichotomy m n with h | rfl | h
  · exact iff_of_true (coordAt_lt_coordAt hm hn h).le h.le
  · exact iff_of_true le_rfl le_rfl
  · exact iff_of_false (coordAt_lt_coordAt hn hm h).not_ge h.not_ge

theorem clamp_monotone (text : List Char) : Monotone (clamp text) := fun _ _ h =>
  (coordAt_le_coordAt_iff (floorBoundary_offset text _) (floorBoundary_offset text _)).mpr
    (offset_monotone text h)

/-- **Clamping goes back to the last position that is not behind**. -/
theorem isGreatest_clamp (text : List Char) (c : Coord) :
    IsGreatest {p | IsPosition text p ∧ p ≤ c} (clamp text c) := by
  refine ⟨⟨isPosition_clamp text c, clamp_le text c⟩, ?_⟩
  rintro p ⟨hp, hle⟩
  exact hp ▸ clamp_monotone text hle

theorem offset_clamp (text : List Char) (c : Coord) : offset text (clamp text c) = offset text c :=
  offset_coordAt (floorBoundary_offset text c)

/-! ## Places -/

/-- **`IsPlace text c`** — the text has the line of `c`, and on it the column lies on a character
boundary that is not behind its line end. -/
def IsPlace (text : List Char) (c : Coord) : Prop :=
  ∃ line, (lines text)[c.line]? = some line ∧ IsBoundary (LineIndex.body line) c.column

theorem body_of_notMem {text : List Char} (h : '\n' ∉ text) : LineIndex.body text = text := by
  rw [LineIndex.body, if_neg (fun hlast => h (List.mem_of_getLast? hlast))]

theorem body_line (text : List Char) : LineIndex.body (text ++ ['\n']) = text := by
  simp [LineIndex.body]

theorem coordAt_of_byteLength_le {text : List Char} {n : Nat} (h : byteLength text ≤ n) :
    coordAt text n = endCoord text := by
  obtain ⟨m, rfl⟩ := Nat.exists_eq_add_of_le h
  have hbehind := coordAt_append text [] m
  rwa [List.append_nil] at hbehind

theorem endCoord_of_line {body : List Char} (h : '\n' ∉ body) (rest : List Char) :
    endCoord (body ++ '\n' :: rest) = ⟨(endCoord rest).line + 1, (endCoord rest).column⟩ := by
  rw [endCoord, byteLength_append, byteLength_cons, ← Nat.add_assoc]
  exact coordAt_line h rest (byteLength rest)

theorem line_endCoord_lt (text : List Char) : (endCoord text).line < (lines text).length := by
  induction text using line_induction with
  | last body h => simp [endCoord_of_notMem h, lines_of_notMem h]
  | line body rest h ih => simpa [endCoord_of_line h, lines_line h] using ih

/-- On a line of the text, clamping goes back to a boundary of the line. -/
theorem clamp_of_getElem? {text line : List Char} {c : Coord}
    (hline : (lines text)[c.line]? = some line) :
    clamp text c = ⟨c.line, floorBoundary (LineIndex.body line) c.column⟩ := by
  induction text using line_induction generalizing c with
  | last body h =>
    obtain ⟨_ | number, column⟩ := c
    · obtain rfl : body = line := by simpa [lines_of_notMem h] using hline
      have hclamp := clamp_of_line_zero h [] (by simp) column
      rw [List.append_nil] at hclamp
      rw [hclamp, body_of_notMem h]
    · simp [lines_of_notMem h] at hline
  | line body rest h ih =>
    rw [lines_line h] at hline
    obtain ⟨_ | number, column⟩ := c
    · obtain rfl : body ++ ['\n'] = line := by simpa using hline
      rw [body_line]
      exact clamp_of_line_zero h _ (by simp) column
    · rw [clamp_line h, ih (c := ⟨number, column⟩) hline]

/-- Behind the lines of the text, clamping goes back to its end. -/
theorem clamp_of_length_le {text : List Char} {c : Coord} (hline : (lines text).length ≤ c.line) :
    clamp text c = endCoord text := by
  induction text using line_induction generalizing c with
  | last body h =>
    obtain ⟨_ | number, column⟩ := c
    · simp [lines_of_notMem h] at hline
    · rw [clamp_behind_last h, endCoord_of_notMem h]
  | line body rest h ih =>
    rw [lines_line h, List.length_cons] at hline
    obtain ⟨_ | number, column⟩ := c
    · simp at hline
    · rw [clamp_line h, ih (c := ⟨number, column⟩) (Nat.le_of_succ_le_succ hline),
        endCoord_of_line h]

/-- **Positions are places** — clamping leaves a coordinate alone just if it lies on a line of the
text and on a character boundary there. -/
theorem isPosition_iff_isPlace {text : List Char} {c : Coord} :
    IsPosition text c ↔ IsPlace text c := by
  rcases hline : (lines text)[c.line]? with _ | line
  · have hbehind := List.getElem?_eq_none_iff.mp hline
    refine iff_of_false (fun hposition => ?_) (fun ⟨_, hplace, _⟩ => ?_)
    · have hend := line_endCoord_lt text
      rw [← clamp_of_length_le hbehind, hposition] at hend
      exact hbehind.not_gt hend
    · exact nomatch hline.symm.trans hplace
  · obtain ⟨number, column⟩ := c
    simp [IsPosition, IsPlace, clamp_of_getElem? hline, hline, IsBoundary]

end ModalEdit.Text
