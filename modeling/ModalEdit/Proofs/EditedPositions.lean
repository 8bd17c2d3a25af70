import ModalEdit.Proofs.Changes
import ModalEdit.Proofs.Delivery

/-!
# Positions through insertions and erasures

The changes that `insert` and `erase` make always fit the text, wherever their coordinates lie
(`insertion_turns`, `erasure_turns`). Hence the coordinates that listeners are told carry every
position of the old text to a position of the new one, and to the very offset that byte arithmetic
asks for (`edits_carry_positions`).
-/

namespace ModalEdit

open Text

/-! ## Cutting out what lies between two coordinates -/

namespace Text

theorem cut_between {text : List Char} {start stop : Coord}
    (h : offset text start < offset text stop) :
    ∃ a removed b, text = a ++ removed ++ b ∧ byteLength a = offset text start ∧
      byteLength a + byteLength removed = offset text stop := by
  obtain ⟨a, y, hay, ha⟩ := cut_offset text start
  obtain ⟨a', b, hab, ha'⟩ := cut_offset text stop
  rcases cut_cases (hay.symm.trans hab) with ⟨z, -, rfl, -⟩ | ⟨removed, rfl, -⟩
  -- the cut at `stop` does not come first, for its prefix is the longer one
  · rw [byteLength_append] at ha
    omega
  · exact ⟨a, removed, b, hab, ha, by rw [← ha', byteLength_append]⟩

theorem byteLength_slice {text : List Char} {start stop : Coord}
    (h : offset text start < offset text stop) :
    byteLength (slice text (offset text start) (offset text stop)) =
      offset text stop - offset text start := by
  obtain ⟨a, removed, b, hab, ha, hstop⟩ := cut_between h
  rw [← hstop, ← ha, hab, slice_append, Nat.add_sub_cancel_left]

end Text

namespace Document

variable (d : Document) (place : Coord) (added : List Char) (start stop : Coord)

@[simp] theorem text_record (change : Change) : (d.record change).text = d.text := by
  unfold record
  split <;> rfl

@[simp] theorem listeners_record (change : Change) : (d.record change).listeners = d.listeners := by
  unfold record
  split <;> rfl

@[simp] theorem heard_record (change : Change) : (d.record change).heard = d.heard := by
  unfold record
  split <;> rfl

/-! ## The change of an insertion -/

/-- The change that an insertion makes. -/
def insertion : Change := .insert (offset d.text place) added

theorem insert_snd :
    (d.insert place added).2 =
      ((d.record (d.insertion place added)).apply (d.insertion place added)).2 := rfl

theorem insert_fst :
    (d.insert place added).1 =
      unlessFailed ((d.record (d.insertion place added)).apply (d.insertion place added)).1
        (coordAt (d.insert place added).2.text (offset d.text place + byteLength added)) := rfl

/-- **Insertions fit** — whatever the coordinate, its offset lies on a character boundary. -/
theorem insertion_turns :
    (d.insertion place added).Turns d.text (d.insert place added).2.text := by
  rw [insert_snd, text_apply, text_record]
  obtain ⟨a, b, hab, ha⟩ := cut_offset d.text place
  have h := Change.Turns.insert a added b
  rw [ha, ← hab] at h
  rwa [← h.applyTo_eq] at h

theorem text_insert :
    (d.insert place added).2.text = takeBytes d.text (offset d.text place) ++ added ++
      dropBytes d.text (offset d.text place) := by
  rw [insert_snd, text_apply, text_record]
  rfl

theorem eventOf_insertion :
    eventOf d.text (d.insertion place added) =
      .inserted (coordAt d.text (offset d.text place))
        (coordAt (d.insert place added).2.text (offset d.text place + byteLength added)) := by
  rw [← (d.insertion_turns place added).applyTo_eq]
  rfl

theorem heard_insert :
    (d.insert place added).2.heard =
      d.heard ++ d.listeners.map fun l => (l.id, eventOf d.text (d.insertion place added)) := by
  rw [insert_snd, heard_apply, heard_record, listeners_record, text_record]

/-! ## The change of an erasure -/

/-- The change that an erasure makes, if it removes something. -/
def erasure : Change :=
  .erase (offset d.text start) (slice d.text (offset d.text start) (offset d.text stop))

section Erasure

variable {d start stop} (h : offset d.text start < offset d.text stop)

include h

theorem erase_snd :
    (d.erase start stop).2 =
      ((d.record (d.erasure start stop)).apply (d.erasure start stop)).2 := by
  rw [erase, if_neg (Nat.not_le.mpr h)]
  rfl

theorem erase_fst :
    (d.erase start stop).1 =
      unlessFailed ((d.record (d.erasure start stop)).apply (d.erasure start stop)).1 () := by
  rw [erase, if_neg (Nat.not_le.mpr h)]
  rfl

/-- **Erasures fit** — what is cut out between two coordinates is what the change names. -/
theorem erasure_turns : (d.erasure start stop).Turns d.text (d.erase start stop).2.text := by
  rw [erase_snd h, text_apply, text_record]
  obtain ⟨a, removed, b, hab, ha, hstop⟩ := cut_between h
  have hturns := Change.Turns.erase a removed b
  have hremoved := slice_append a removed b
  rw [← hab, hstop, ha] at hremoved
  rw [← hab, ha, ← hremoved] at hturns
  rwa [← hturns.applyTo_eq] at hturns

theorem text_erase :
    (d.erase start stop).2.text =
      takeBytes d.text (offset d.text start) ++ dropBytes d.text (offset d.text stop) := by
  rw [erase_snd h, text_apply, text_record, erasure, Change.applyTo, byteLength_slice h,
    Nat.add_sub_cancel' h.le]

theorem eventOf_erasure :
    eventOf d.text (d.erasure start stop) =
      .erased (coordAt d.text (offset d.text start)) (coordAt d.text (offset d.text stop)) := by
  rw [erasure, eventOf, byteLength_slice h, Nat.add_sub_cancel' h.le]

theorem shift_erasure (n : Nat) :
    (d.erasure start stop).shift n =
      if n < offset d.text start then n
      else if n < offset d.text stop then offset d.text start
      else n - (offset d.text stop - offset d.text start) := by
  rw [erasure, Change.shift, byteLength_slice h, Nat.add_sub_cancel' h.le]

theorem heard_erase :
    (d.erase start stop).2.heard =
      d.heard ++ d.listeners.map fun l => (l.id, eventOf d.text (d.erasure start stop)) := by
  rw [erase_snd h, heard_apply, heard_record, listeners_record, text_record]

end Erasure

theorem erase_of_le (h : offset d.text stop ≤ offset d.text start) :
    d.erase start stop = (.ok (), d) := by
  rw [erase, if_pos h]

/-! ## Both orders of counting agree -/

/-- **Line and column arithmetic agrees with byte arithmetic** — through every insertion and every
erasure that removes something, with `start` and `stop` the coordinates that the listeners are told:
a position goes to a position, its offset goes where the offset arithmetic says, and no subtraction
on the way goes below zero. -/
theorem edits_carry_positions (c : Coord) (hc : IsPosition d.text c) :
    (∀ place added, ∃ start stop,
      (d.insert place added).2.heard =
        d.heard ++ d.listeners.map (fun l => (l.id, .inserted start stop)) ∧
      start = coordAt d.text (offset d.text place) ∧
      stop = coordAt (d.insert place added).2.text (offset d.text place + byteLength added) ∧
      c.afterInsert? start stop = some (c.afterInsert start stop) ∧
      IsPosition (d.insert place added).2.text (c.afterInsert start stop) ∧
      offset (d.insert place added).2.text (c.afterInsert start stop) =
        if offset d.text c < offset d.text place then offset d.text c
        else offset d.text c + byteLength added) ∧
    ∀ first last, offset d.text first < offset d.text last → ∃ start stop,
      (d.erase first last).2.heard =
        d.heard ++ d.listeners.map (fun l => (l.id, .erased start stop)) ∧
      start = coordAt d.text (offset d.text first) ∧
      stop = coordAt d.text (offset d.text last) ∧
      c.afterErase? start stop = some (c.afterErase start stop) ∧
      IsPosition (d.erase first last).2.text (c.afterErase start stop) ∧
      offset (d.erase first last).2.text (c.afterErase start stop) =
        if offset d.text c < offset d.text first then offset d.text c
        else if offset d.text c < offset d.text last then offset d.text first
        else offset d.text c - (offset d.text last - offset d.text first) := by
  constructor
  · intro place added
    have h := d.insertion_turns place added
    have hevent := d.eventOf_insertion place added
    refine ⟨_, _, by rw [heard_insert, hevent], rfl, rfl, ?_, ?_, ?_⟩
    · exact Coord.afterInsert?_eq_some c (h.start_le_stop (.inl hevent))
    · have := h.isPosition_carry hc
      rwa [hevent] at this
    · have := h.offset_carry hc
      rwa [hevent] at this
  · intro first last hlt
    have h := erasure_turns hlt
    have hevent := eventOf_erasure hlt
    refine ⟨_, _, by rw [heard_erase hlt, hevent], rfl, rfl, ?_, ?_, ?_⟩
    · exact Coord.afterErase?_eq_some c (h.start_le_stop (.inr hevent))
    · have := h.isPosition_carry hc
      rwa [hevent] at this
    · have := h.offset_carry hc
      rwa [hevent, shift_erasure hlt] at this

theorem edits_carry_positions_over_lines :
    let d : Document :=
      { name := "notes", text := ['a', 'é', '\n', 'b'], listeners := [⟨7, .tracker default⟩] }
    IsPosition d.text ⟨1, 0⟩ ∧
      (∃ start stop, (d.insert ⟨0, 1⟩ ['x', '\n']).2.heard = [(7, .inserted start stop)] ∧
        offset (d.insert ⟨0, 1⟩ ['x', '\n']).2.text (Coord.afterInsert ⟨1, 0⟩ start stop) = 6) ∧
      offset d.text ⟨0, 1⟩ < offset d.text ⟨9, 9⟩ ∧
      ∃ start stop, (d.erase ⟨0, 1⟩ ⟨9, 9⟩).2.heard = [(7, .erased start stop)] ∧
        offset (d.erase ⟨0, 1⟩ ⟨9, 9⟩).2.text (Coord.afterErase ⟨1, 0⟩ start stop) = 1 := by
  intro d
  have hposition : IsPosition d.text ⟨1, 0⟩ := by unfold IsPosition; decide
  have hlt : offset d.text ⟨0, 1⟩ < offset d.text ⟨9, 9⟩ := by decide
  obtain ⟨hinsert, herase⟩ := edits_carry_positions d ⟨1, 0⟩ hposition
  obtain ⟨start, stop, hheard, -, -, -, -, hoffset⟩ := hinsert ⟨0, 1⟩ ['x', '\n']
  obtain ⟨start', stop', hheard', -, -, -, -, hoffset'⟩ := herase ⟨0, 1⟩ ⟨9, 9⟩ hlt
  exact ⟨hposition, ⟨start, stop, hheard, hoffset⟩, hlt, start', stop', hheard', hoffset'⟩

end Document

end ModalEdit
