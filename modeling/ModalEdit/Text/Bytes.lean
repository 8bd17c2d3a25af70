/-!
# Byte measure of a text

Texts are lists of characters; positions inside them are counted in bytes of
their UTF-8 form. `byteLength` is that measure, and `takeBytes` / `dropBytes`
cut a text at a byte offset. An offset inside a character is rounded down to the
start of that character, which is what `floorBoundary` computes.

Main statements: a cut loses nothing (`takeBytes_append_dropBytes`), what is before it is as long
as it can be (`isCut_takeBytes`), and a cut at the length of a first part gives the two parts back.
-/

namespace ModalEdit.Text

/-- Number of bytes in the UTF-8 form of a text. -/
def byteLength : List Char → Nat
  | [] => 0
  | c :: cs => c.utf8Size + byteLength cs

/-- The largest character boundary at or before byte `n`. -/
def floorBoundary : List Char → Nat → Nat
  | [], _ => 0
  | c :: cs, n =>
    if c.utf8Size ≤ n then c.utf8Size + floorBoundary cs (n - c.utf8Size) else 0

/-- The characters that lie wholly inside the first `n` bytes. -/
def takeBytes : List Char → Nat → List Char
  | [], _ => []
  | c :: cs, n => if c.utf8Size ≤ n then c :: takeBytes cs (n - c.utf8Size) else []

/-- What `takeBytes` leaves over. -/
def dropBytes : List Char → Nat → List Char
  | [], _ => []
  | c :: cs, n => if c.utf8Size ≤ n then dropBytes cs (n - c.utf8Size) else c :: cs

/-- The characters between two byte offsets. -/
def slice (text : List Char) (start stop : Nat) : List Char :=
  takeBytes (dropBytes text start) (stop - start)

@[simp] theorem byteLength_nil : byteLength [] = 0 := rfl

@[simp] theorem byteLength_cons (c : Char) (cs : List Char) :
    byteLength (c :: cs) = c.utf8Size + byteLength cs := rfl

@[simp] theorem byteLength_append (a b : List Char) :
    byteLength (a ++ b) = byteLength a + byteLength b := by
  induction a with
  | nil => simp
  | cons c cs ih => simp [ih, Nat.add_assoc]

theorem takeBytes_append_dropBytes (text : List Char) (n : Nat) :
    takeBytes text n ++ dropBytes text n = text := by
  induction text generalizing n with
  | nil => rfl
  | cons c cs ih =>
    by_cases h : c.utf8Size ≤ n <;> simp [takeBytes, dropBytes, h, ih]

theorem byteLength_takeBytes (text : List Char) (n : Nat) :
    byteLength (takeBytes text n) = floorBoundary text n := by
  induction text generalizing n with
  | nil => rfl
  | cons c cs ih =>
    by_cases h : c.utf8Size ≤ n <;> simp [takeBytes, floorBoundary, h, ih]

theorem floorBoundary_le (text : List Char) (n : Nat) : floorBoundary text n ≤ n := by
  induction text generalizing n with
  | nil => simp [floorBoundary]
  | cons c cs ih =>
    by_cases h : c.utf8Size ≤ n
    · have := ih (n - c.utf8Size)
      simp only [floorBoundary, h, if_true]
      omega
    · simp [floorBoundary, h]

/-- `before` is what stands before byte `n` of a text: the longest part from its start that has
at most `n` bytes. -/
structure IsCut (text : List Char) (n : Nat) (before : List Char) : Prop where
  starts : before <+: text
  fits : byteLength before ≤ n
  longest : ∀ other, other <+: text → byteLength other ≤ n → other <+: before

theorem prefix_takeBytes {text other : List Char} {n : Nat} (hother : other <+: text)
    (hfits : byteLength other ≤ n) : other <+: takeBytes text n := by
  obtain ⟨rest, rfl⟩ := hother
  induction other generalizing n with
  | nil => exact List.nil_prefix
  | cons c cs ih =>
    have hc : c.utf8Size ≤ n := by simp only [byteLength_cons] at hfits; omega
    have hcs : byteLength cs ≤ n - c.utf8Size := by simp only [byteLength_cons] at hfits; omega
    simpa [takeBytes, hc] using ih hcs

theorem isCut_takeBytes (text : List Char) (n : Nat) : IsCut text n (takeBytes text n) where
  starts := ⟨_, takeBytes_append_dropBytes text n⟩
  fits := byteLength_takeBytes text n ▸ floorBoundary_le text n
  longest _ := prefix_takeBytes

theorem IsCut.eq_takeBytes {text before : List Char} {n : Nat} (h : IsCut text n before) :
    before = takeBytes text n := by
  have hcut := isCut_takeBytes text n
  have hle := (prefix_takeBytes h.starts h.fits).length_le
  have hge := h.longest _ hcut.starts hcut.fits
  exact (hge.eq_of_length_le hle).symm

/-- Cutting right after a first part gives that part back. -/
theorem takeBytes_byteLength_append (a b : List Char) :
    takeBytes (a ++ b) (byteLength a) = a ++ takeBytes b 0 := by
  induction a with
  | nil => simp
  | cons c cs ih => simp [takeBytes, ih]

theorem dropBytes_byteLength_append (a b : List Char) :
    dropBytes (a ++ b) (byteLength a) = dropBytes b 0 := by
  induction a with
  | nil => simp
  | cons c cs ih => simp [dropBytes, ih]

theorem takeBytes_zero (text : List Char) : takeBytes text 0 = [] := by
  cases text with
  | nil => rfl
  | cons c cs =>
    have : 0 < c.utf8Size := c.utf8Size_pos
    simp [takeBytes, Nat.not_le.mpr this]

theorem dropBytes_zero (text : List Char) : dropBytes text 0 = text := by
  cases text with
  | nil => rfl
  | cons c cs =>
    have : 0 < c.utf8Size := c.utf8Size_pos
    simp [dropBytes, Nat.not_le.mpr this]

/-- What is before the end of a first part is that part. -/
theorem takeBytes_append (a b : List Char) : takeBytes (a ++ b) (byteLength a) = a := by
  rw [takeBytes_byteLength_append, takeBytes_zero, List.append_nil]

theorem floorBoundary_append (a b : List Char) :
    floorBoundary (a ++ b) (byteLength a) = byteLength a := by
  rw [← byteLength_takeBytes, takeBytes_append]

/-- Between the lengths of two prefixes lies what the longer one adds. -/
theorem slice_append (a removed b : List Char) :
    slice (a ++ removed ++ b) (byteLength a) (byteLength a + byteLength removed) = removed := by
  rw [slice, List.append_assoc, dropBytes_byteLength_append, dropBytes_zero,
    Nat.add_sub_cancel_left, takeBytes_append]

end ModalEdit.Text
