/-!
# White space

`isBlank` is the Unicode property White_Space: twenty-five characters. `trim`
removes it from both ends.
-/

namespace ModalEdit.Text

/-- The ranges of the property White_Space, as code points with both ends included. -/
def blankRanges : List (Nat × Nat) :=
  [(0x09, 0x0D), (0x20, 0x20), (0x85, 0x85), (0xA0, 0xA0), (0x1680, 0x1680), (0x2000, 0x200A),
   (0x2028, 0x2029), (0x202F, 0x202F), (0x205F, 0x205F), (0x3000, 0x3000)]

/-- Whether a character has the property White_Space. -/
def isBlank (c : Char) : Bool :=
  blankRanges.any fun range => range.1 ≤ c.toNat && c.toNat ≤ range.2

/-- The text without blank characters at either end. -/
def trim (text : List Char) : List Char :=
  ((text.dropWhile isBlank).reverse.dropWhile isBlank).reverse

example : (blankRanges.map fun range => range.2 - range.1 + 1).sum = 25 := by decide

end ModalEdit.Text
