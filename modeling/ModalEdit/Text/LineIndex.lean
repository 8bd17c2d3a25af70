import ModalEdit.Document.History
import ModalEdit.Text.Position

/-!
# Line index

The offsets at which the lines of a text begin, kept beside the text and built anew whenever the
text changes. Through it, the line of an offset is found by bisection, and a column is an offset
from where its line begins.

Looking into the index, subtracting and cutting the text are computations that fail here where they
would go out of range.
-/

namespace ModalEdit

/-- What goes out of range. -/
inductive RangeFault where
  /-- An entry of a list that it does not have. -/
  | entry
  /-- A difference below zero. -/
  | difference
  /-- A cut inside a character, behind the end, or that ends before it begins. -/
  | cut
  deriving DecidableEq, Repr

/-- A computation that fails where something goes out of range. -/
abbrev InRange (α : Type) := Except RangeFault α

namespace InRange

/-- The entry of a list at an index. -/
def entry (entries : List Nat) (index : Nat) : InRange Nat :=
  match entries[index]? with
  | some n => .ok n
  | none => .error .entry

/-- What is left of the first number. -/
def minus (a b : Nat) : InRange Nat := if b ≤ a then .ok (a - b) else .error .difference

/-- The text from one offset to another. -/
def cut (text : List Char) (start stop : Nat) : InRange (List Char) :=
  if start ≤ stop ∧ Text.floorBoundary text start = start ∧ Text.floorBoundary text stop = stop then
    .ok (Text.slice text start stop)
  else .error .cut

end InRange

/-- A text with the offsets at which its lines begin. -/
structure LineIndex where
  text : List Char
  starts : List Nat
  deriving DecidableEq, Repr

namespace LineIndex

/-- The offsets right behind the line ends of a text that begins at an offset. -/
def startsBehind (offset : Nat) : List Char → List Nat
  | [] => []
  | x :: text =>
    if x = '\n' then (offset + x.utf8Size) :: startsBehind (offset + x.utf8Size) text
    else startsBehind (offset + x.utf8Size) text

/-- The index of a text. -/
def ofText (text : List Char) : LineIndex := ⟨text, 0 :: startsBehind 0 text⟩

/-- Changes the text, and builds the index anew. -/
def change (i : LineIndex) (c : Change) : LineIndex := ofText (c.applyTo i.text)

/-- Number of lines. -/
def lineCount (i : LineIndex) : Nat := i.starts.length

/-- The line with a number, with its line end, if there is one with that number. -/
def line (i : LineIndex) (number : Nat) : InRange (Option (List Char)) :=
  match i.starts[number]? with
  | none => .ok none
  | some start =>
    (InRange.cut i.text start (i.starts[number + 1]?.getD (Text.byteLength i.text))).map some

/-- The number of starts up to an offset, which lies between `low` and `high`, by bisection. -/
def search (starts : List Nat) (offset low high : Nat) : InRange Nat :=
  if low < high then
    match starts[(low + high) / 2]? with
    | none => .error .entry
    | some start =>
      if start ≤ offset then search starts offset ((low + high) / 2 + 1) high
      else search starts offset low ((low + high) / 2)
  else .ok low
  termination_by high - low

/-- The coordinate of a byte offset. -/
def coordAt (i : LineIndex) (offset : Nat) : InRange Coord := do
  let offset := min offset (Text.byteLength i.text)
  let line ← InRange.minus (← search i.starts offset 0 i.starts.length) 1
  let column ← InRange.minus offset (← InRange.entry i.starts line)
  return ⟨line, column⟩

/-- The position behind the last character. -/
def endCoord (i : LineIndex) : InRange Coord := i.coordAt (Text.byteLength i.text)

/-- A line without its line end. -/
def body (line : List Char) : List Char :=
  if line.getLast? = some '\n' then line.dropLast else line

/-- Goes back to a character boundary, byte by byte. -/
def floorColumn (line : List Char) : Nat → InRange Nat
  | 0 => if Text.floorBoundary line 0 = 0 then .ok 0 else .error .difference
  | column + 1 =>
    if Text.floorBoundary line (column + 1) = column + 1 then .ok (column + 1)
    else floorColumn line column

/-- The last position at or before a coordinate. -/
def clamp (i : LineIndex) (c : Coord) : InRange Coord := do
  if i.lineCount ≤ c.line then i.endCoord
  else
    let line := (← i.line c.line).getD []
    let column ← floorColumn line (min c.column (Text.byteLength (body line)))
    return ⟨c.line, column⟩

/-- The byte offset of the last position at or before a coordinate. -/
def offset (i : LineIndex) (c : Coord) : InRange Nat := do
  let c ← i.clamp c
  return (← InRange.entry i.starts c.line) + c.column

/-- The number of bytes of a character, if there is one. -/
def width (x : Option Char) : Nat := (x.map Char.utf8Size).getD 0

/-- The position one character further, unless that is behind the end. -/
def nextCoord (i : LineIndex) (c : Coord) : InRange Coord := do
  let offset ← i.offset c
  let behind ← InRange.cut i.text offset (Text.byteLength i.text)
  i.coordAt (offset + width behind.head?)

/-- The position one character back, unless that is before the start. -/
def prevCoord (i : LineIndex) (c : Coord) : InRange Coord := do
  let offset ← i.offset c
  let before ← InRange.cut i.text 0 offset
  i.coordAt (← InRange.minus offset (width before.getLast?))

end LineIndex

end ModalEdit
