import Mathlib.Data.List.Basic
import Mathlib.Order.Hom.Basic
import ModalEdit.Proofs.DocumentRun
import ModalEdit.Proofs.TextLines

/-!
# Line indexes are faithful

The entries of the index of a text are the offsets of its lines (`getElem?_starts`), and the entry
that bisection finds for an offset is that of the line on which the offset lies
(`starts_coordAt`, `search_eq`). So nothing goes out of range when coordinates and offsets are
translated through the index, and the translations are those of `Text`.

Main result: `coordinates_are_offsets`.
-/

namespace ModalEdit

open Text

namespace LineIndex

/-! ## Starts of lines -/

section Line

variable {body : List Char} (h : '\n' ∉ body) (rest : List Char) (n : Nat)

include h

theorem startsBehind_of_notMem : startsBehind n body = [] := by
  induction body generalizing n with
  | nil => rfl
  | cons x body ih =>
    obtain ⟨hx, hbody⟩ := not_or.mp (mt List.mem_cons.mpr h)
    rw [startsBehind, if_neg (Ne.symm hx), ih hbody]

theorem startsBehind_line : startsBehind n (body ++ '\n' :: rest) =
    (n + (byteLength body + 1)) :: startsBehind (n + (byteLength body + 1)) rest := by
  induction body generalizing n with
  | nil =>
    rw [byteLength_nil, Nat.zero_add]
    rfl
  | cons x body ih =>
    obtain ⟨hx, hbody⟩ := not_or.mp (mt List.mem_cons.mpr h)
    rw [List.cons_append, startsBehind, if_neg (Ne.symm hx), ih hbody, byteLength_cons,
      Nat.add_assoc n, Nat.add_assoc x.utf8Size]

end Line

/-- The lines before the entry of a line make up what lies before the line. -/
theorem getElem?_starts (text : List Char) (n k : Nat) : (n :: startsBehind n text)[k]? =
    (lines text)[k]?.map fun _ => n + byteLength ((lines text).take k).flatten := by
  induction text using line_induction generalizing n k with
  | last body h => cases k <;> simp [startsBehind_of_notMem h, lines_of_notMem h]
  | line body rest h ih =>
    rw [startsBehind_line h, lines_line h]
    cases k with
    | zero => simp
    | succ k =>
      have hnewline : '\n'.utf8Size = 1 := rfl
      simp [ih, hnewline, Nat.add_assoc]

theorem length_starts (text : List Char) (n : Nat) :
    (n :: startsBehind n text).length = (lines text).length := by
  induction text using line_induction generalizing n with
  | last body h => simp [startsBehind_of_notMem h, lines_of_notMem h]
  | line body rest h ih =>
    rw [startsBehind_line h, lines_line h, List.length_cons, ih, List.length_cons]

theorem le_of_mem_starts {text : List Char} {n start : Nat} (h : start ∈ n :: startsBehind n text) :
    n ≤ start := by
  obtain ⟨k, hk⟩ := List.mem_iff_getElem?.mp h
  rw [getElem?_starts] at hk
  obtain ⟨_, -, rfl⟩ := Option.map_eq_some_iff.mp hk
  exact Nat.le_add_right _ _

/-- **The line of an offset** — its entry lies as far before the offset as the column says, and the
entries up to it are those that are not behind the offset. -/
theorem starts_coordAt {text : List Char} {n : Nat} (h : n ≤ byteLength text) (before : Nat) :
    (∃ start, (before :: startsBehind before text)[(Text.coordAt text n).line]? = some start ∧
      start + (Text.coordAt text n).column = before + n) ∧
    ∀ k start, (before :: startsBehind before text)[k]? = some start →
      (start ≤ before + n ↔ k < (Text.coordAt text n).line + 1) := by
  induction text using line_induction generalizing n before with
  | last body hbody =>
    have hcoord := coordAt_of_le hbody [] h
    rw [List.append_nil] at hcoord
    rw [hcoord, startsBehind_of_notMem hbody]
    refine ⟨⟨before, rfl, rfl⟩, ?_⟩
    rintro (_ | k) start hk
    · obtain rfl := Option.some.inj hk
      simp
    · cases hk
  | line body rest hbody ih =>
    rw [startsBehind_line hbody]
    rcases Nat.lt_or_ge (byteLength body) n with hn | hn
    · obtain ⟨m, rfl⟩ := Nat.exists_eq_add_of_le hn
      have hm : m ≤ byteLength rest := by
        simp only [byteLength_append, byteLength_cons] at h
        have hnewline : '\n'.utf8Size = 1 := rfl
        omega
      obtain ⟨⟨start, hstart, hsum⟩, hiff⟩ := ih hm (before + (byteLength body + 1))
      rw [Nat.succ_eq_add_one, coordAt_line hbody]
      refine ⟨⟨start, hstart, by dsimp only; omega⟩, ?_⟩
      rintro (_ | k) start hk
      · obtain rfl := Option.some.inj hk
        dsimp only
        omega
      · have hk := hiff k start hk
        dsimp only
        omega
    · rw [coordAt_of_le hbody _ hn]
      refine ⟨⟨before, rfl, rfl⟩, ?_⟩
      rintro (_ | k) start hk
      · obtain rfl := Option.some.inj hk
        simp
      · have hle := le_of_mem_starts (List.mem_of_getElem? hk)
        dsimp only
        omega

/-! ## Bisection -/

/-- **Bisection finds the number of entries up to an offset**, if these are the first ones. -/
theorem search_eq {starts : List Nat} {offset number low high : Nat}
    (h : ∀ k start, starts[k]? = some start → (start ≤ offset ↔ k < number)) (hlow : low ≤ number)
    (hhigh : number ≤ high) (hlength : high ≤ starts.length) :
    search starts offset low high = .ok number := by
  fun_induction search starts offset low high with
  | case1 low high hlt hnone =>
    rw [List.getElem?_eq_none_iff] at hnone
    omega
  | case2 low high hlt start hstart hle ih =>
    have hmiddle := (h _ _ hstart).mp hle
    exact ih hmiddle hhigh hlength
  | case3 low high hlt start hstart hle ih =>
    have hmiddle := mt (h _ _ hstart).mpr hle
    exact ih hlow (Nat.not_lt.mp hmiddle) (by omega)
  | case4 low high hge =>
    obtain rfl : low = number := by omega
    rfl

/-! ## Translations through the index -/

theorem bind_eq {α β : Type} {x : InRange α} {a : α} (h : x = .ok a) (f : α → InRange β) :
    x >>= f = f a := by
  rw [h]
  rfl

theorem minus_eq_ok {a b c : Nat} (h : a = b + c) : InRange.minus a b = .ok c := by
  rw [InRange.minus, if_pos (by omega), h, Nat.add_sub_cancel_left]

theorem entry_eq_ok {entries : List Nat} {index n : Nat} (h : entries[index]? = some n) :
    InRange.entry entries index = .ok n := by
  rw [InRange.entry, h]

theorem cut_eq_ok (a removed b : List Char) :
    InRange.cut (a ++ removed ++ b) (byteLength a) (byteLength (a ++ removed)) = .ok removed := by
  have hstart : IsBoundary (a ++ removed ++ b) (byteLength a) := by
    rw [List.append_assoc]
    exact isBoundary_byteLength a _
  have hstop := isBoundary_byteLength (a ++ removed) b
  have hle : byteLength a ≤ byteLength (a ++ removed) := by simp
  rw [InRange.cut, if_pos ⟨hle, hstart, hstop⟩, byteLength_append, slice_append]

theorem floorColumn_eq (line : List Char) (column : Nat) :
    floorColumn line column = .ok (floorBoundary line column) := by
  induction column with
  | zero =>
    have hzero := Nat.le_zero.mp (floorBoundary_le line 0)
    rw [floorColumn, if_pos hzero, hzero]
  | succ column ih =>
    rw [floorColumn]
    split
    next hboundary => rw [hboundary]
    next hboundary =>
      -- the boundary before `column + 1` is one before `column`
      have hle : floorBoundary line (column + 1) ≤ column := by
        have := floorBoundary_le line (column + 1)
        omega
      have hback := floorBoundary_monotone line hle
      rw [isBoundary_floorBoundary line (column + 1)] at hback
      rw [ih, le_antisymm (floorBoundary_monotone line (Nat.le_succ column)) hback]

theorem exists_body_append (line : List Char) : ∃ ending, line = body line ++ ending := by
  rw [body]
  split
  next hlast => exact ⟨['\n'], (List.dropLast_append_getLast? _ hlast).symm⟩
  next => exact ⟨[], (List.append_nil line).symm⟩

/-- Up to its line end, the boundaries of a line are those of its body. -/
theorem floorBoundary_min_body (line : List Char) (column : Nat) :
    floorBoundary line (min column (byteLength (body line))) =
      floorBoundary (body line) column := by
  obtain ⟨ending, hline⟩ := exists_body_append line
  conv => lhs; arg 1; rw [hline]
  exact floorBoundary_append_min _ ending column

variable (text : List Char)

theorem lineCount_ofText : (ofText text).lineCount = (lines text).length := length_starts text 0

theorem line_ofText (number : Nat) : (ofText text).line number = .ok (lines text)[number]? := by
  have hstarts := getElem?_starts text 0
  simp only [Nat.zero_add] at hstarts
  rw [line, show (ofText text).starts = 0 :: startsBehind 0 text from rfl, hstarts, hstarts]
  rcases hline : (lines text)[number]? with _ | line
  · rfl
  have htake : (lines text).take (number + 1) = (lines text).take number ++ [line] := by
    rw [List.take_add_one, hline]
    rfl
  have htext : ((lines text).take number).flatten ++ line ++
      ((lines text).drop (number + 1)).flatten = text := by
    have hcut := congrArg List.flatten (List.take_append_drop (number + 1) (lines text))
    rw [flatten_lines] at hcut
    simpa [htake] using hcut
  have hstop : ((lines text)[number + 1]?.map fun _ =>
      byteLength ((lines text).take (number + 1)).flatten).getD (byteLength text) =
        byteLength (((lines text).take number).flatten ++ line) := by
    rcases hnext : (lines text)[number + 1]? with _ | next
    · have hdrop : (lines text).drop (number + 1) = [] :=
        List.drop_eq_nil_iff.mpr (List.getElem?_eq_none_iff.mp hnext)
      rw [hdrop, List.flatten_nil, List.append_nil] at htext
      rw [htext]
      rfl
    · simp [htake]
  have hcut := cut_eq_ok ((lines text).take number).flatten line
    ((lines text).drop (number + 1)).flatten
  rw [htext] at hcut
  change Except.map some (InRange.cut text _ (Option.getD _ (byteLength text))) = _
  rw [hstop, hcut]
  rfl

theorem coordAt_ofText (n : Nat) : (ofText text).coordAt n = .ok (Text.coordAt text n) := by
  have hmin : Text.coordAt text (min n (byteLength text)) = Text.coordAt text n := by
    rcases Nat.le_total n (byteLength text) with h | h
    · rw [Nat.min_eq_left h]
    · rw [Nat.min_eq_right h, coordAt_of_byteLength_le h]
      rfl
  obtain ⟨⟨start, hstart, hsum⟩, hiff⟩ := starts_coordAt (Nat.min_le_right n (byteLength text)) 0
  simp only [hmin, Nat.zero_add] at hstart hsum hiff
  have hlength : (Text.coordAt text n).line + 1 ≤ (ofText text).starts.length :=
    (List.getElem?_eq_some_iff.mp hstart).1
  have hsearch := search_eq hiff (Nat.zero_le _) hlength le_rfl
  have hline : InRange.minus ((Text.coordAt text n).line + 1) 1 =
      .ok (Text.coordAt text n).line := minus_eq_ok (Nat.add_comm _ _)
  have hentry := entry_eq_ok hstart
  have hcolumn : InRange.minus (min n (byteLength text)) start = .ok (Text.coordAt text n).column :=
    minus_eq_ok hsum.symm
  exact (bind_eq hsearch _).trans ((bind_eq hline _).trans ((bind_eq hentry _).trans
    (bind_eq hcolumn _)))

theorem endCoord_ofText : (ofText text).endCoord = .ok (Text.endCoord text) :=
  coordAt_ofText text (byteLength text)

theorem clamp_ofText (c : Coord) : (ofText text).clamp c = .ok (Text.clamp text c) := by
  rw [clamp, lineCount_ofText]
  split
  next hbehind => rw [endCoord_ofText, clamp_of_length_le hbehind]
  next hwithin =>
    obtain ⟨line, hline⟩ : ∃ line, (lines text)[c.line]? = some line :=
      ⟨_, List.getElem?_eq_getElem (Nat.not_le.mp hwithin)⟩
    have hcolumn := (floorColumn_eq line (min c.column (byteLength (body line)))).trans
      (congrArg Except.ok (floorBoundary_min_body line c.column))
    rw [clamp_of_getElem? hline]
    exact (bind_eq ((line_ofText text c.line).trans (congrArg Except.ok hline)) _).trans
      (bind_eq hcolumn _)

theorem offset_ofText (c : Coord) : (ofText text).offset c = .ok (Text.offset text c) := by
  obtain ⟨⟨start, hstart, hsum⟩, -⟩ := starts_coordAt (offset_le text c) 0
  rw [Nat.zero_add] at hsum
  have hoffset : InRange.entry (0 :: startsBehind 0 text) (Text.clamp text c).line = .ok start :=
    entry_eq_ok hstart
  refine ((bind_eq (clamp_ofText text c) _).trans (bind_eq hoffset _)).trans ?_
  exact congrArg Except.ok hsum

/-- **`i.Faithful text`** — whatever is looked up through the index, nothing goes out of range, and
what is found is what the text says. -/
structure Faithful (i : LineIndex) (text : List Char) : Prop where
  text_eq : i.text = text
  lineCount_eq : i.lineCount = (lines text).length
  line_eq : ∀ number, i.line number = .ok (lines text)[number]?
  endCoord_eq : i.endCoord = .ok (Text.endCoord text)
  coordAt_eq : ∀ n, i.coordAt n = .ok (Text.coordAt text n)
  clamp_eq : ∀ c, i.clamp c = .ok (Text.clamp text c)
  offset_eq : ∀ c, i.offset c = .ok (Text.offset text c)

theorem faithful_ofText : (ofText text).Faithful text where
  text_eq := rfl
  lineCount_eq := lineCount_ofText text
  line_eq := line_ofText text
  endCoord_eq := endCoord_ofText text
  coordAt_eq := coordAt_ofText text
  clamp_eq := clamp_ofText text
  offset_eq := offset_ofText text

/-- After changes, the index is that of the text of the document. -/
theorem foldl_change (d : Document) (changes : List Change) :
    changes.foldl change (ofText d.text) = ofText (d.replay changes).2.text := by
  induction changes generalizing d with
  | nil => rfl
  | cons c changes ih =>
    rw [Document.replay_cons, ← ih]
    rfl

end LineIndex

/-! ## Coordinates and offsets -/

/-- The boundaries of a text and its places, each in its order. -/
def Text.boundaryPlaces (text : List Char) :
    {n // IsBoundary text n} ≃o {c // IsPlace text c} where
  toFun n := ⟨coordAt text n, isPosition_iff_isPlace.mp (isPosition_coordAt n.2)⟩
  invFun c := ⟨offset text c, floorBoundary_offset text c⟩
  left_inv n := Subtype.ext (offset_coordAt n.2)
  right_inv c := Subtype.ext (isPosition_iff_isPlace.mpr c.2)
  map_rel_iff' {m n} := coordAt_le_coordAt_iff m.2 n.2

/-- **Coordinates and offsets are two views of the same positions**. After any changes of a text,
its lines make it up, and the index that was kept along says what they are. Translating between the
boundaries and the places is an isomorphism of orders, and clamping goes back to the last place that
is not behind a coordinate. -/
theorem Document.coordinates_are_offsets (d : Document) (changes : List Change) :
    let text := (d.replay changes).2.text
    (changes.foldl LineIndex.change (.ofText d.text)).Faithful text ∧
      (lines text).flatten = text ∧
      (∃ places : {n // IsBoundary text n} ≃o {c // IsPlace text c},
        (∀ n, (places n : Coord) = coordAt text n) ∧ ∀ c, (places.symm c : Nat) = offset text c) ∧
      (∀ c, IsGreatest {p | IsPlace text p ∧ p ≤ c} (clamp text c)) ∧
      Monotone (clamp text) ∧ (∀ c, clamp text (clamp text c) = clamp text c) ∧
      ∀ c, offset text c = offset text (clamp text c) := by
  intro text
  refine ⟨?_, flatten_lines text, ⟨boundaryPlaces text, fun _ => rfl, fun _ => rfl⟩, ?_,
    clamp_monotone text, isPosition_clamp text, fun c => (offset_clamp text c).symm⟩
  · rw [LineIndex.foldl_change]
    exact LineIndex.faithful_ofText text
  · intro c
    have hgreatest := isGreatest_clamp text c
    simpa only [isPosition_iff_isPlace] using hgreatest

/-- A coordinate inside a character goes back to where the character begins. -/
example : (LineIndex.ofText "aé\nb".toList).clamp ⟨0, 2⟩ = .ok ⟨0, 1⟩ := by decide +kernel

end ModalEdit
