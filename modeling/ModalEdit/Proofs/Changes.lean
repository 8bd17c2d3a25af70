import ModalEdit.Document
import ModalEdit.Proofs.Positions

/-!
# Changes and where positions go

`change.Turns before after` says that a change fits a text and what it makes of it: its offset lies
on a character boundary, and an erasure finds the text that it names. A change that fits can be
taken back (`Change.Turns.inverse`).

The event of a fitting change moves coordinates exactly as the change moves byte offsets: a position
behind a prefix goes to the position behind the prefix that the change makes of it
(`Change.Turns.carry_endCoord`), so line and column arithmetic agrees with offset arithmetic on
every position (`Change.Turns.offset_carry`).
-/

namespace ModalEdit

open Text

/-! ## Changes that fit -/

/-- **`change.Turns before after`** — `change` fits `before` and makes `after` of it. -/
inductive Change.Turns : Change → List Char → List Char → Prop
  | insert (a added b : List Char) :
    Turns (.insert (byteLength a) added) (a ++ b) (a ++ added ++ b)
  | erase (a removed b : List Char) :
    Turns (.erase (byteLength a) removed) (a ++ removed ++ b) (a ++ b)

/-- **`change.shift n`** — where a byte offset goes. -/
def Change.shift (change : Change) (n : Nat) : Nat :=
  match change with
  | .insert offset added => if n < offset then n else n + byteLength added
  | .erase offset removed =>
    if n < offset then n
    else if n < offset + byteLength removed then offset
    else n - byteLength removed

namespace Change.Turns

variable {change : Change} {before after : List Char}

theorem inverse (h : change.Turns before after) : change.inverse.Turns after before := by
  cases h with
  | insert a added b => exact .erase a added b
  | erase a removed b => exact .insert a removed b

theorem applyTo_eq (h : change.Turns before after) : change.applyTo before = after := by
  cases h with
  | insert a added b =>
    simp [applyTo, takeBytes_append, dropBytes_byteLength_append, dropBytes_zero]
  | erase a removed b =>
    rw [applyTo, ← byteLength_append, dropBytes_byteLength_append, dropBytes_zero,
      List.append_assoc, takeBytes_append]

end Change.Turns

/-- **`TurnAll changes before after`** — the changes, made in order, lead from one text to another,
and each of them fits the text that it is made in. -/
inductive TurnAll : List Change → List Char → List Char → Prop
  | nil (text : List Char) : TurnAll [] text text
  | cons {change : Change} {changes : List Change} {before between after : List Char} :
    change.Turns before between → TurnAll changes between after →
      TurnAll (change :: changes) before after

namespace TurnAll

variable {changes later : List Change} {before between after : List Char}

theorem append (h : TurnAll changes before between) (h' : TurnAll later between after) :
    TurnAll (changes ++ later) before after := by
  induction h with
  | nil => exact h'
  | cons hchange _ ih => exact .cons hchange (ih h')

theorem concat {change : Change} (h : TurnAll changes before between)
    (hchange : change.Turns between after) : TurnAll (changes ++ [change]) before after :=
  h.append (.cons hchange (.nil after))

/-- Changes are taken back by their inverses, in the opposite order. -/
theorem inverse (h : TurnAll changes before after) :
    TurnAll (changes.reverse.map Change.inverse) after before := by
  induction h with
  | nil => exact .nil _
  | cons hchange _ ih =>
    rw [List.reverse_cons, List.map_append]
    exact ih.concat hchange.inverse

end TurnAll

/-! ## What the listeners are told -/

namespace Document

theorem eventOf_insert (a added b : List Char) :
    eventOf (a ++ b) (.insert (byteLength a) added) =
      .inserted (endCoord a) ((endCoord a).advance (endCoord added)) := by
  rw [eventOf, (Change.Turns.insert a added b).applyTo_eq, coordAt_byteLength, ← byteLength_append,
    coordAt_byteLength, endCoord_append]

theorem eventOf_erase (a removed b : List Char) :
    eventOf (a ++ removed ++ b) (.erase (byteLength a) removed) =
      .erased (endCoord a) ((endCoord a).advance (endCoord removed)) := by
  rw [eventOf, ← byteLength_append, coordAt_byteLength, endCoord_append, List.append_assoc,
    coordAt_byteLength]

end Document

/-! ## Where positions go -/

namespace Change.Turns

variable {change : Change} {before after : List Char}

/-- The position behind a prefix goes to the position behind what becomes of that prefix. -/
theorem carry_endCoord (h : change.Turns before after) {x y : List Char} (hx : before = x ++ y) :
    ∃ x' y', after = x' ++ y' ∧
      (Document.eventOf before change).carry (endCoord x) = endCoord x' ∧
      byteLength x' = change.shift (byteLength x) := by
  cases h with
  | insert a added b =>
    rw [Document.eventOf_insert]
    rcases cut_cases hx with ⟨z, hz, rfl, rfl⟩ | ⟨z, rfl, rfl⟩
    · -- the prefix ends before the insertion
      refine ⟨x, z ++ added ++ b, by simp, Coord.afterInsert_of_lt (endCoord_lt_append x hz), ?_⟩
      have := byteLength_pos hz
      simp only [shift, byteLength_append]
      rw [if_pos (by omega)]
    · refine ⟨a ++ added ++ z, y, by simp, ?_, ?_⟩
      · simp only [Event.carry, endCoord_append, Coord.afterInsert_advance]
      · simp only [shift, byteLength_append]
        rw [if_neg (by omega)]
        omega
  | erase a removed b =>
    rw [Document.eventOf_erase]
    rw [List.append_assoc] at hx
    rcases cut_cases hx with ⟨z, hz, rfl, rfl⟩ | ⟨z, rfl, hz⟩
    · -- the prefix ends before the erasure
      refine ⟨x, z ++ b, by simp, Coord.afterErase_of_lt (endCoord_lt_append x hz), ?_⟩
      have := byteLength_pos hz
      simp only [shift, byteLength_append]
      rw [if_pos (by omega)]
    rcases cut_cases hz with ⟨w, hw, rfl, rfl⟩ | ⟨w, rfl, rfl⟩
    · -- the prefix ends inside the erasure
      refine ⟨a, b, rfl, ?_, ?_⟩
      · have := endCoord_lt_append (a ++ z) hw
        simp only [endCoord_append] at this ⊢
        rw [Coord.advance_assoc] at this
        exact Coord.afterErase_of_mem (Coord.le_advance _ _) this
      · have := byteLength_pos hw
        simp only [shift, byteLength_append]
        rw [if_neg (by omega), if_pos (by omega)]
    · refine ⟨a ++ w, y, by simp, ?_, ?_⟩
      · simp only [Event.carry, endCoord_append, ← Coord.advance_assoc, Coord.afterErase_advance]
      · simp only [shift, byteLength_append]
        rw [if_neg (by omega), if_neg (by omega)]
        omega

theorem isPosition_carry (h : change.Turns before after) {c : Coord} (hc : IsPosition before c) :
    IsPosition after ((Document.eventOf before change).carry c) := by
  obtain ⟨x, y, hx, rfl⟩ := isPosition_iff.mp hc
  obtain ⟨x', y', rfl, hcarry, -⟩ := h.carry_endCoord hx
  rw [hcarry]
  exact isPosition_endCoord x' y'

theorem offset_carry (h : change.Turns before after) {c : Coord} (hc : IsPosition before c) :
    offset after ((Document.eventOf before change).carry c) = change.shift (offset before c) := by
  obtain ⟨x, y, hx, rfl⟩ := isPosition_iff.mp hc
  obtain ⟨x', y', rfl, hcarry, hlen⟩ := h.carry_endCoord hx
  rw [hcarry, offset_endCoord, hlen, hx, offset_endCoord]

theorem carry_monotone (h : change.Turns before after) :
    Monotone (Document.eventOf before change).carry := by
  cases h with
  | insert a added b =>
    rw [Document.eventOf_insert]
    exact Coord.afterInsert_monotone (Coord.le_advance _ _)
  | erase a removed b =>
    rw [Document.eventOf_erase]
    exact Coord.afterErase_monotone (Coord.le_advance _ _)

/-- The two coordinates of an event come in text order. -/
theorem start_le_stop (h : change.Turns before after) {start stop : Coord}
    (he : Document.eventOf before change = .inserted start stop ∨
      Document.eventOf before change = .erased start stop) : start ≤ stop := by
  cases h with
  | insert a added b =>
    rw [Document.eventOf_insert] at he
    simp only [Event.inserted.injEq, reduceCtorEq, or_false] at he
    obtain ⟨rfl, rfl⟩ := he
    exact Coord.le_advance _ _
  | erase a removed b =>
    rw [Document.eventOf_erase] at he
    simp only [Event.erased.injEq, reduceCtorEq, false_or] at he
    obtain ⟨rfl, rfl⟩ := he
    exact Coord.le_advance _ _

end Change.Turns

end ModalEdit
