import ModalEdit.Text.Blank
import ModalEdit.Text.CaseFold
import ModalEdit.Text.Category

/-!
# Character sets

The sets of characters that one position of a pattern accepts, as expressions.
`CharSet.mem` decides membership.
-/

namespace ModalEdit.Pattern

/-- A set of characters. -/
inductive CharSet where
  /-- The characters from `low` to `high`, both included; empty if they are reversed. -/
  | range (low high : Nat)
  /-- The word characters of all scripts. -/
  | word
  /-- The decimal digits of all scripts. -/
  | digit
  /-- White space. -/
  | blank
  /-- The characters of these general categories. -/
  | categories (list : List Text.Category)
  | union (a b : CharSet)
  | inter (a b : CharSet)
  | compl (a : CharSet)
  /-- The characters with a case variant in the set. -/
  | anyCase (a : CharSet)
  deriving Repr, DecidableEq, Inhabited

namespace CharSet

/-- The set of no characters. -/
def none : CharSet := range 1 0

/-- The set of all characters. -/
def all : CharSet := range 0 0x10FFFF

/-- The set of one character. -/
def single (c : Char) : CharSet := range c.toNat c.toNat

/-- The characters of `a` that are not in `b`. -/
def diff (a b : CharSet) : CharSet := inter a (compl b)

/-- The characters in exactly one of two sets. -/
def symmDiff (a b : CharSet) : CharSet := union (diff a b) (diff b a)

/-- The union of ranges. -/
def ofRanges (ranges : List (Nat × Nat)) : CharSet :=
  ranges.foldl (fun set r => union set (range r.1 r.2)) none

/-- Whether a code point belongs to a set. -/
def memCode : CharSet → Nat → Bool
  | range low high, n => low ≤ n && n ≤ high
  | word, n => Text.isWordChar (Char.ofNat n)
  | digit, n => Text.isDecimalDigit (Char.ofNat n)
  | blank, n => Text.isBlank (Char.ofNat n)
  | categories list, n => list.contains (Text.Category.ofChar (Char.ofNat n))
  | union a b, n => a.memCode n || b.memCode n
  | inter a b, n => a.memCode n && b.memCode n
  | compl a, n => !a.memCode n
  | anyCase a, n => (Text.caseVariants n).any a.memCode

/-- Whether a character belongs to a set. -/
def mem (set : CharSet) (c : Char) : Bool := set.memCode c.toNat

/-- The letters, digits and underscore of ASCII. -/
def asciiWord : CharSet := ofRanges [(0x30, 0x39), (0x41, 0x5A), (0x5F, 0x5F), (0x61, 0x7A)]

/-- The digits of ASCII. -/
def asciiDigit : CharSet := range 0x30 0x39

/-- The white space of ASCII. -/
def asciiBlank : CharSet := ofRanges [(0x09, 0x0D), (0x20, 0x20)]

/-- The named classes written `[:name:]`. -/
def asciiClass? (name : List Char) : Option CharSet :=
  match String.ofList name with
  | "alnum" => some (ofRanges [(0x30, 0x39), (0x41, 0x5A), (0x61, 0x7A)])
  | "alpha" => some (ofRanges [(0x41, 0x5A), (0x61, 0x7A)])
  | "ascii" => some (range 0x00 0x7F)
  | "blank" => some (ofRanges [(0x09, 0x09), (0x20, 0x20)])
  | "cntrl" => some (ofRanges [(0x00, 0x1F), (0x7F, 0x7F)])
  | "digit" => some asciiDigit
  | "graph" => some (range 0x21 0x7E)
  | "lower" => some (range 0x61 0x7A)
  | "print" => some (range 0x20 0x7E)
  | "punct" => some (ofRanges [(0x21, 0x2F), (0x3A, 0x40), (0x5B, 0x60), (0x7B, 0x7E)])
  | "space" => some asciiBlank
  | "upper" => some (range 0x41 0x5A)
  | "word" => some asciiWord
  | "xdigit" => some (ofRanges [(0x30, 0x39), (0x41, 0x46), (0x61, 0x66)])
  | _ => Option.none

end CharSet

end ModalEdit.Pattern
