import Mathlib.Data.Nat.PSub
import Mathlib.Order.Monotone.Basic
import ModalEdit.Coord

/-!
# The arithmetic of coordinates

Coordinates are linearly ordered, and a coordinate can be *advanced* by an extent: the coordinate at
which a text ends, seen from its own start. Advancing is associative and monotone, and an edit acts
on it as one expects: an insertion slips its extent in between (`afterInsert_advance`), an erasure
takes its extent out again (`afterErase_advance`).

`afterInsert` and `afterErase` subtract on natural numbers, where a subtraction that would go below
zero gives zero. `afterInsert?` and `afterErase?` are the same computations with subtractions that
fail instead; that they never do is part of what is proved about an edit.
-/

namespace ModalEdit.Coord

/-! ## Order -/

theorem le_antisymm {a b : Coord} (hab : a ≤ b) (hba : b ≤ a) : a = b := by
  obtain ⟨l, c⟩ := a
  obtain ⟨l', c'⟩ := b
  simp only [le_def, mk.injEq] at *
  omega

theorem le_refl (c : Coord) : c ≤ c := Or.inr ⟨rfl, Nat.le_refl _⟩

theorem lt_iff_le_not_ge {a b : Coord} : a < b ↔ a ≤ b ∧ ¬ b ≤ a := by
  simp only [lt_def, le_def]
  omega

instance linearOrder : LinearOrder Coord where
  le_refl := le_refl
  le_trans _ _ _ := le_trans
  le_antisymm _ _ := le_antisymm
  lt_iff_le_not_ge _ _ := lt_iff_le_not_ge
  le_total := le_total
  min_def _ _ := rfl
  max_def _ _ := rfl
  toDecidableLE := inferInstance
  toDecidableLT := inferInstance
  toDecidableEq := inferInstance

instance : Preorder Coord := linearOrder.toPartialOrder.toPreorder

theorem origin_le (c : Coord) : origin ≤ c := by
  simp only [le_def, origin]
  omega

/-! ## Extents -/

/-- **`c.advance e`** — where a text that starts at `c` ends, when it ends at `e` seen from its own
start. -/
def advance (c e : Coord) : Coord :=
  if e.line = 0 then ⟨c.line, c.column + e.column⟩ else ⟨c.line + e.line, e.column⟩

@[simp] theorem advance_origin (c : Coord) : c.advance origin = c := rfl

@[simp] theorem origin_advance (e : Coord) : origin.advance e = e := by
  obtain ⟨l, c⟩ := e
  simp only [advance, origin, Nat.zero_add]
  split <;> simp_all

theorem advance_assoc (a b c : Coord) : (a.advance b).advance c = a.advance (b.advance c) := by
  simp only [advance]
  split <;> split <;> simp_all <;> omega

theorem advance_le_advance_iff {c e f : Coord} : c.advance e ≤ c.advance f ↔ e ≤ f := by
  by_cases he : e.line = 0 <;> by_cases hf : f.line = 0 <;> simp [advance, le_def, he, hf]
  all_goals omega

theorem le_advance (c e : Coord) : c ≤ c.advance e := by
  simpa using advance_le_advance_iff (c := c).mpr (origin_le e)

theorem lt_advance {e : Coord} (c : Coord) (he : e ≠ origin) : c < c.advance e := by
  refine lt_of_le_of_ne (le_advance c e) fun h => he ?_
  have h : c.advance e ≤ c.advance origin := by simp [← h]
  exact le_antisymm (advance_le_advance_iff.mp h) (origin_le e)

theorem exists_advance_of_le {c d : Coord} (h : c ≤ d) : ∃ e, d = c.advance e := by
  obtain ⟨l, n⟩ := c
  obtain ⟨l', n'⟩ := d
  -- to a later line the extent has lines, on the same line only columns
  rcases h with h | ⟨rfl, h⟩
  · refine ⟨⟨l' - l, n'⟩, ?_⟩
    simp only at h
    simp [advance, Nat.sub_ne_zero_of_lt h, Nat.add_sub_cancel' h.le]
  · refine ⟨⟨0, n' - n⟩, ?_⟩
    simp only at h
    simp [advance, Nat.add_sub_cancel' h]

/-! ## Edits -/

section Edits

variable {c start stop : Coord}

theorem afterInsert_of_lt (h : c < start) : c.afterInsert start stop = c := by
  simp [afterInsert, h]

/-- What follows the place of an insertion follows the inserted extent. -/
theorem afterInsert_advance (start added e : Coord) :
    (start.advance e).afterInsert start (start.advance added) =
      (start.advance added).advance e := by
  have h : ¬ start.advance e < start := not_lt.mpr (le_advance start e)
  simp only [afterInsert, if_neg h]
  by_cases he : e.line = 0 <;> by_cases ha : added.line = 0 <;> simp [advance, he, ha]
  omega

theorem afterErase_of_lt (h : c < start) : c.afterErase start stop = c := by
  simp [afterErase, h]

theorem afterErase_of_mem (h : start ≤ c) (h' : c < stop) : c.afterErase start stop = start := by
  simp [afterErase, not_lt.mpr h, h']

/-- What follows an erased extent follows the place where the extent was. -/
theorem afterErase_advance (start removed e : Coord) :
    ((start.advance removed).advance e).afterErase start (start.advance removed) =
      start.advance e := by
  have h : ¬ (start.advance removed).advance e < start :=
    not_lt.mpr (le_trans (le_advance start removed) (le_advance _ e))
  have h' : ¬ (start.advance removed).advance e < start.advance removed :=
    not_lt.mpr (le_advance _ e)
  simp only [afterErase, if_neg h, if_neg h']
  by_cases he : e.line = 0 <;> by_cases hr : removed.line = 0 <;> simp [advance, he, hr]
  omega

theorem start_le_afterErase (h : start ≤ stop) (hc : start ≤ c) :
    start ≤ c.afterErase start stop := by
  obtain ⟨removed, rfl⟩ := exists_advance_of_le h
  rcases lt_or_ge c (start.advance removed) with hc' | hc'
  · rw [afterErase_of_mem hc hc']
  obtain ⟨e, rfl⟩ := exists_advance_of_le hc'
  rw [afterErase_advance]
  exact le_advance start e

theorem afterInsert_monotone (h : start ≤ stop) : Monotone fun c => afterInsert c start stop := by
  intro c d hcd
  obtain ⟨added, rfl⟩ := exists_advance_of_le h
  dsimp only
  -- both lie before the place, or `c` alone does, or neither
  rcases lt_or_ge d start with hd | hd
  · rwa [afterInsert_of_lt hd, afterInsert_of_lt (lt_of_le_of_lt hcd hd)]
  obtain ⟨f, rfl⟩ := exists_advance_of_le hd
  rw [afterInsert_advance]
  rcases lt_or_ge c start with hc | hc
  · rw [afterInsert_of_lt hc]
    exact le_trans hc.le (le_trans h (le_advance _ f))
  obtain ⟨e, rfl⟩ := exists_advance_of_le hc
  rw [afterInsert_advance]
  exact advance_le_advance_iff.mpr (advance_le_advance_iff.mp hcd)

theorem afterErase_monotone (h : start ≤ stop) : Monotone fun c => afterErase c start stop := by
  intro c d hcd
  obtain ⟨removed, rfl⟩ := exists_advance_of_le h
  dsimp only
  -- the cases go by where the two lie: before the erased extent, in it, or behind it
  rcases lt_or_ge d start with hd | hd
  · rwa [afterErase_of_lt hd, afterErase_of_lt (lt_of_le_of_lt hcd hd)]
  rcases lt_or_ge c start with hc | hc
  · rw [afterErase_of_lt hc]
    exact le_trans hc.le (start_le_afterErase h hd)
  rcases lt_or_ge c (start.advance removed) with hc' | hc'
  · rw [afterErase_of_mem hc hc']
    exact start_le_afterErase h hd
  obtain ⟨e, rfl⟩ := exists_advance_of_le hc'
  obtain ⟨f, rfl⟩ := exists_advance_of_le (le_trans hc' hcd)
  rw [afterErase_advance, afterErase_advance]
  exact advance_le_advance_iff.mpr (advance_le_advance_iff.mp hcd)

end Edits

/-! ## Subtractions -/

/-- `afterInsert` with subtractions that fail when they would go below zero. -/
def afterInsert? (c start stop : Coord) : Option Coord :=
  if c < start then some c
  else if c.line = start.line then do
    let width ← c.column.psub start.column
    return ⟨stop.line, stop.column + width⟩
  else do
    let lines ← stop.line.psub start.line
    return ⟨c.line + lines, c.column⟩

/-- `afterErase` with subtractions that fail when they would go below zero. -/
def afterErase? (c start stop : Coord) : Option Coord :=
  if c < start then some c
  else if c < stop then some start
  else if c.line = stop.line then do
    let width ← c.column.psub stop.column
    return ⟨start.line, start.column + width⟩
  else do
    let lines ← stop.line.psub start.line
    let line ← c.line.psub lines
    return ⟨line, c.column⟩

theorem afterInsert?_eq_some {start stop : Coord} (c : Coord) (h : start ≤ stop) :
    c.afterInsert? start stop = some (c.afterInsert start stop) := by
  unfold afterInsert? afterInsert
  split
  · rfl
  next hlt =>
    -- on the line of the insertion columns are subtracted, below it lines are
    rw [lt_def] at hlt
    split
    · rw [Nat.psub_eq_sub (by omega)]
      rfl
    · rw [Nat.psub_eq_sub (by rw [le_def] at h; omega)]
      rfl

theorem afterErase?_eq_some {start stop : Coord} (c : Coord) (h : start ≤ stop) :
    c.afterErase? start stop = some (c.afterErase start stop) := by
  unfold afterErase? afterErase
  split
  · rfl
  split
  · rfl
  next hlt =>
    rw [lt_def] at hlt
    rw [le_def] at h
    split
    · rw [Nat.psub_eq_sub (by omega)]
      rfl
    · rw [Nat.psub_eq_sub (by omega)]
      change (c.line.psub (stop.line - start.line) >>= _) = _
      rw [Nat.psub_eq_sub (by omega)]
      rfl

end ModalEdit.Coord
