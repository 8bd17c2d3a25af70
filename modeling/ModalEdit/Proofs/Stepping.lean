import Mathlib.Data.Set.Operations
import Mathlib.Logic.Function.Iterate
import Mathlib.Order.Bounds.Basic
import ModalEdit.Proofs.LineIndexes

/-!
# Stepping from position to position

The positions of a text are numbered by the characters before them (`nthPosition`), and the numbers
have the order of the positions. Stepping forward counts up and stepping back counts down
(`nextCoord_nthPosition`, `prevCoord_nthPosition`), so neither leaves a position out, neither visits
one twice, and each takes the other back (`stepping_visits_positions`). At either end of the text a
step stays where it is.

The index of the lines of a text gives the same steps, and nothing goes out of range on the way.
-/

namespace ModalEdit

namespace Text

/-! ## Positions by number -/

/-- **`nthPosition text n`** — the position behind the first `n` characters. -/
def nthPosition (text : List Char) (n : Nat) : Coord := endCoord (text.take n)

variable {text : List Char} {c : Coord} {m n : Nat}

@[simp] theorem nthPosition_zero (text : List Char) : nthPosition text 0 = .origin := by
  simp [nthPosition]

@[simp] theorem nthPosition_length (text : List Char) :
    nthPosition text text.length = endCoord text := by
  simp [nthPosition]

theorem isPosition_iff_exists_nthPosition :
    IsPosition text c ↔ ∃ n ≤ text.length, nthPosition text n = c := by
  rw [isPosition_iff]
  constructor
  · rintro ⟨a, b, rfl, rfl⟩
    refine ⟨a.length, by simp, ?_⟩
    rw [nthPosition, List.take_left]
  · rintro ⟨n, -, rfl⟩
    exact ⟨text.take n, text.drop n, (List.take_append_drop n text).symm, rfl⟩

/-- The numbers of positions have their order. -/
theorem strictMonoOn_nthPosition (text : List Char) :
    StrictMonoOn (nthPosition text) (Set.Iic text.length) := by
  intro m _ n hn hlt
  obtain ⟨k, rfl⟩ := Nat.exists_eq_add_of_lt hlt
  have hn : m + k + 1 ≤ text.length := hn
  -- the longer prefix has at least the next character, so it ends later
  have hmore : (text.drop m).take (k + 1) ≠ [] := by
    intro hnil
    have hlength := congrArg List.length hnil
    simp only [List.length_take, List.length_drop, List.length_nil] at hlength
    omega
  show endCoord (text.take m) < endCoord (text.take (m + (k + 1)))
  rw [List.take_add]
  exact endCoord_lt_append _ hmore

/-! ## One step -/

/-- One character forward from the end of a prefix. -/
theorem nextCoord_endCoord (a : List Char) (x : Char) (b : List Char) :
    nextCoord (a ++ x :: b) (endCoord a) = endCoord (a ++ [x]) := by
  rw [nextCoord, offset_endCoord, dropBytes_byteLength_append, dropBytes_zero]
  show coordAt (a ++ x :: b) (byteLength a + x.utf8Size) = _
  have hlength : byteLength a + x.utf8Size = byteLength (a ++ [x]) := by simp
  rw [hlength, List.append_cons, coordAt_byteLength]

/-- One character back from the end of a prefix. -/
theorem prevCoord_endCoord (a : List Char) (x : Char) (b : List Char) :
    prevCoord (a ++ [x] ++ b) (endCoord (a ++ [x])) = endCoord a := by
  have hlength : byteLength (a ++ [x]) - x.utf8Size = byteLength a := by
    simp only [byteLength_append, byteLength_cons, byteLength_nil]
    omega
  rw [prevCoord, offset_endCoord, takeBytes_append, List.getLast?_concat]
  dsimp only
  rw [hlength, List.append_assoc, coordAt_byteLength]

theorem nextCoord_nthPosition (h : n < text.length) :
    nextCoord text (nthPosition text n) = nthPosition text (n + 1) := by
  have hstep := nextCoord_endCoord (text.take n) text[n] (text.drop (n + 1))
  rw [List.getElem_cons_drop, List.take_append_drop] at hstep
  rw [nthPosition, hstep, nthPosition, List.take_add_one, List.getElem?_eq_getElem h]
  rfl

theorem prevCoord_nthPosition (h : n < text.length) :
    prevCoord text (nthPosition text (n + 1)) = nthPosition text n := by
  have hstep := prevCoord_endCoord (text.take n) text[n] (text.drop (n + 1))
  rw [List.append_assoc, List.singleton_append, List.getElem_cons_drop, List.take_append_drop]
    at hstep
  rw [nthPosition, List.take_add_one, List.getElem?_eq_getElem h]
  exact hstep

/-- There is nothing behind the end to step over. -/
theorem nextCoord_end (text : List Char) : nextCoord text (endCoord text) = endCoord text := by
  have hoffset := offset_endCoord text []
  have hdrop := dropBytes_byteLength_append text []
  rw [List.append_nil] at hoffset hdrop
  rw [nextCoord, hoffset, hdrop]
  rfl

theorem prevCoord_origin (text : List Char) : prevCoord text .origin = .origin := by
  rw [prevCoord, offset_origin, takeBytes_zero]
  exact coordAt_zero text

/-- A position before the end has a character behind it. -/
theorem exists_nthPosition_of_ne_end (hc : IsPosition text c) (hend : c ≠ endCoord text) :
    ∃ n < text.length, nthPosition text n = c := by
  obtain ⟨n, hn, rfl⟩ := isPosition_iff_exists_nthPosition.mp hc
  refine ⟨n, lt_of_le_of_ne hn fun heq => hend ?_, rfl⟩
  rw [heq, nthPosition_length]

/-- A position behind the start has a character before it. -/
theorem exists_nthPosition_of_ne_origin (hc : IsPosition text c) (hstart : c ≠ .origin) :
    ∃ n < text.length, nthPosition text (n + 1) = c := by
  obtain ⟨n, hn, rfl⟩ := isPosition_iff_exists_nthPosition.mp hc
  cases n with
  | zero => exact absurd (nthPosition_zero text) hstart
  | succ n => exact ⟨n, hn, rfl⟩

theorem isLeast_nextCoord (hc : IsPosition text c) (hend : c ≠ endCoord text) :
    IsLeast {d | IsPosition text d ∧ c < d} (nextCoord text c) := by
  obtain ⟨n, hn, rfl⟩ := exists_nthPosition_of_ne_end hc hend
  have hmono := strictMonoOn_nthPosition text
  rw [nextCoord_nthPosition hn]
  constructor
  · refine ⟨isPosition_iff_exists_nthPosition.mpr ⟨n + 1, hn, rfl⟩, ?_⟩
    exact hmono hn.le hn (Nat.lt_succ_self n)
  · rintro d ⟨hd, hafter⟩
    obtain ⟨m, hm, rfl⟩ := isPosition_iff_exists_nthPosition.mp hd
    have hnm : n < m := (hmono.lt_iff_lt hn.le hm).mp hafter
    exact (hmono.le_iff_le hn hm).mpr hnm

theorem isGreatest_prevCoord (hc : IsPosition text c) (hstart : c ≠ .origin) :
    IsGreatest {d | IsPosition text d ∧ d < c} (prevCoord text c) := by
  obtain ⟨n, hn, rfl⟩ := exists_nthPosition_of_ne_origin hc hstart
  have hmono := strictMonoOn_nthPosition text
  rw [prevCoord_nthPosition hn]
  constructor
  · refine ⟨isPosition_iff_exists_nthPosition.mpr ⟨n, hn.le, rfl⟩, ?_⟩
    exact hmono hn.le hn (Nat.lt_succ_self n)
  · rintro d ⟨hd, hbefore⟩
    obtain ⟨m, hm, rfl⟩ := isPosition_iff_exists_nthPosition.mp hd
    have hmn : m < n + 1 := (hmono.lt_iff_lt hm hn).mp hbefore
    exact (hmono.le_iff_le hm hn.le).mpr (Nat.le_of_lt_succ hmn)

/-- A step back takes a step forward back. -/
theorem prevCoord_nextCoord (hc : IsPosition text c) (hend : c ≠ endCoord text) :
    prevCoord text (nextCoord text c) = c := by
  obtain ⟨n, hn, rfl⟩ := exists_nthPosition_of_ne_end hc hend
  rw [nextCoord_nthPosition hn, prevCoord_nthPosition hn]

theorem nextCoord_prevCoord (hc : IsPosition text c) (hstart : c ≠ .origin) :
    nextCoord text (prevCoord text c) = c := by
  obtain ⟨n, hn, rfl⟩ := exists_nthPosition_of_ne_origin hc hstart
  rw [prevCoord_nthPosition hn, nextCoord_nthPosition hn]

/-! ## Steps one after the other -/

theorem iterate_nextCoord (h : n ≤ text.length) :
    (nextCoord text)^[n] .origin = nthPosition text n := by
  induction n with
  | zero => simp
  | succ n ih =>
    rw [Function.iterate_succ_apply', ih (Nat.le_of_succ_le h), nextCoord_nthPosition h]

theorem iterate_prevCoord (h : n ≤ text.length) :
    (prevCoord text)^[n] (endCoord text) = nthPosition text (text.length - n) := by
  induction n with
  | zero => simp
  | succ n ih =>
    have hlast : text.length - n = text.length - (n + 1) + 1 := by omega
    rw [Function.iterate_succ_apply', ih (Nat.le_of_succ_le h), hlast]
    exact prevCoord_nthPosition (by omega)

/-- Every position has one number. -/
theorem existsUnique_nthPosition (hc : IsPosition text c) :
    ∃! n, n ≤ text.length ∧ nthPosition text n = c := by
  obtain ⟨n, hn, rfl⟩ := isPosition_iff_exists_nthPosition.mp hc
  refine ⟨n, ⟨hn, rfl⟩, ?_⟩
  rintro m ⟨hm, heq⟩
  exact (strictMonoOn_nthPosition text).injOn hm hn heq

end Text

/-! ## Steps through the index -/

namespace LineIndex

open Text

variable (text : List Char) (c : Coord)

theorem nextCoord_ofText : (ofText text).nextCoord c = .ok (Text.nextCoord text c) := by
  obtain ⟨a, b, rfl, hoffset⟩ := cut_offset text c
  have hcut : InRange.cut (a ++ b) (byteLength a) (byteLength (a ++ b)) = .ok b := by
    simpa using cut_eq_ok a b []
  have hnext : Text.nextCoord (a ++ b) c =
      Text.coordAt (a ++ b) (byteLength a + width b.head?) := by
    rw [Text.nextCoord, ← hoffset, dropBytes_byteLength_append, dropBytes_zero]
    cases b <;> rfl
  rw [LineIndex.nextCoord, bind_eq (offset_ofText _ c), ← hoffset, hnext]
  exact (bind_eq hcut _).trans (coordAt_ofText _ _)

theorem prevCoord_ofText : (ofText text).prevCoord c = .ok (Text.prevCoord text c) := by
  obtain ⟨a, b, rfl, hoffset⟩ := cut_offset text c
  have hcut : InRange.cut (a ++ b) 0 (byteLength a) = .ok a := by
    simpa using cut_eq_ok [] a b
  -- the last character of the prefix is no wider than the prefix
  have hminus : InRange.minus (byteLength a) (width a.getLast?) =
      .ok (byteLength a - width a.getLast?) := by
    refine if_pos ?_
    rcases List.eq_nil_or_concat' a with rfl | ⟨l, x, rfl⟩
    · exact Nat.le_refl _
    · simp [width]
  have hprev : Text.prevCoord (a ++ b) c =
      Text.coordAt (a ++ b) (byteLength a - width a.getLast?) := by
    rw [Text.prevCoord, ← hoffset, takeBytes_append]
    cases a.getLast? <;> rfl
  rw [LineIndex.prevCoord, bind_eq (offset_ofText _ c), ← hoffset, hprev]
  exact (bind_eq hcut _).trans ((bind_eq hminus _).trans (coordAt_ofText _ _))

end LineIndex

/-! ## Stepping -/

namespace Text

/-- **Stepping visits every position once** — a step forward leads to the next position there is,
and a step back to the one before, unless there is none; so each takes the other back, and from
either end of the text on, every position comes after its own number of steps and no other. The
steps through the index of the lines are the same, and never go out of range. -/
theorem stepping_visits_positions (text : List Char) :
    (∀ c, IsPosition text c →
      (c ≠ endCoord text → IsLeast {d | IsPosition text d ∧ c < d} (nextCoord text c) ∧
        prevCoord text (nextCoord text c) = c) ∧
      (c ≠ .origin → IsGreatest {d | IsPosition text d ∧ d < c} (prevCoord text c) ∧
        nextCoord text (prevCoord text c) = c) ∧
      (∃! n, n ≤ text.length ∧ (nextCoord text)^[n] .origin = c) ∧
      ∃! n, n ≤ text.length ∧ (prevCoord text)^[n] (endCoord text) = c) ∧
      nextCoord text (endCoord text) = endCoord text ∧ prevCoord text .origin = .origin ∧
      ∀ c, (LineIndex.ofText text).nextCoord c = .ok (nextCoord text c) ∧
        (LineIndex.ofText text).prevCoord c = .ok (prevCoord text c) := by
  refine ⟨?_, nextCoord_end text, prevCoord_origin text, fun c => ?_⟩
  · intro c hc
    obtain ⟨n, ⟨hn, hnth⟩, hunique⟩ := existsUnique_nthPosition hc
    refine ⟨fun hend => ⟨isLeast_nextCoord hc hend, prevCoord_nextCoord hc hend⟩,
      fun hstart => ⟨isGreatest_prevCoord hc hstart, nextCoord_prevCoord hc hstart⟩, ?_, ?_⟩
    · refine ⟨n, ⟨hn, (iterate_nextCoord hn).trans hnth⟩, ?_⟩
      rintro m ⟨hm, hreached⟩
      rw [iterate_nextCoord hm] at hreached
      exact hunique m ⟨hm, hreached⟩
    · refine ⟨text.length - n, ⟨Nat.sub_le _ _, ?_⟩, ?_⟩
      · rw [iterate_prevCoord (Nat.sub_le _ _), Nat.sub_sub_self hn, hnth]
      · rintro m ⟨hm, hreached⟩
        rw [iterate_prevCoord hm] at hreached
        have hcount := hunique _ ⟨Nat.sub_le _ _, hreached⟩
        omega
  · exact ⟨LineIndex.nextCoord_ofText text c, LineIndex.prevCoord_ofText text c⟩

/-- From the end of a line of wide characters over an empty line to a last line without line end. -/
theorem stepping_visits_positions_over_lines :
    let text := ['é', '€', '\n', '\n', 'x']
    IsPosition text ⟨0, 5⟩ ∧ nextCoord text ⟨0, 5⟩ = ⟨1, 0⟩ ∧ prevCoord text ⟨0, 5⟩ = ⟨0, 2⟩ ∧
      IsLeast {d | IsPosition text d ∧ ⟨0, 5⟩ < d} ⟨1, 0⟩ ∧
      IsGreatest {d | IsPosition text d ∧ d < ⟨0, 5⟩} ⟨0, 2⟩ ∧
      prevCoord text ⟨1, 0⟩ = ⟨0, 5⟩ ∧ nextCoord text ⟨0, 2⟩ = ⟨0, 5⟩ ∧
      ∃! n, n ≤ text.length ∧ (nextCoord text)^[n] .origin = ⟨0, 5⟩ := by
  intro text
  have hposition : IsPosition text ⟨0, 5⟩ := by
    show clamp text ⟨0, 5⟩ = ⟨0, 5⟩
    decide
  have hnext : nextCoord text ⟨0, 5⟩ = ⟨1, 0⟩ := by decide
  have hprev : prevCoord text ⟨0, 5⟩ = ⟨0, 2⟩ := by decide
  have hend : ⟨0, 5⟩ ≠ endCoord text := by decide
  obtain ⟨hforward, hback, hvisited, -⟩ := (stepping_visits_positions text).1 ⟨0, 5⟩ hposition
  obtain ⟨hleast, hreturn⟩ := hforward hend
  obtain ⟨hgreatest, hagain⟩ := hback (by decide)
  rw [hnext] at hleast hreturn
  rw [hprev] at hgreatest hagain
  exact ⟨hposition, hnext, hprev, hleast, hgreatest, hreturn, hagain, hvisited⟩

end Text

end ModalEdit
