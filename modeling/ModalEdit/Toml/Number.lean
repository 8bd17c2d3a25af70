import ModalEdit.Text.Number
import ModalEdit.Text.Split

/-!
# Numbers in TOML

    integer = sign? decimal | "0x" digits | "0o" digits | "0b" digits
    float   = sign? decimal ("." digits)? (("e" | "E") sign? digits)?
            | sign? ("inf" | "nan")
    decimal = digits without a leading zero, or "0"

Underscores may stand between digits. Integers have 64 bits; a float must not be
larger than the largest double.
-/

namespace ModalEdit.Toml

/-- Digits without the underscores between them; none if an underscore lacks a neighbour. -/
def ungrouped? (text : List Char) : Option (List Char) :=
  let groups := Text.splitAll '_' text
  if groups.any (·.isEmpty) then none else some groups.flatten

/-- The number that digits of a base stand for. -/
def digitsIn? (base : Nat) (text : List Char) : Option Nat :=
  (ungrouped? text).bind (Text.valueIn? base)

/-- Whether decimal digits start with a zero that means nothing. -/
def hasLeadingZero : List Char → Bool
  | '0' :: _ :: _ => true
  | _ => false

/-- The number that decimal digits without a leading zero stand for. -/
def decimal? (text : List Char) : Option Nat :=
  if hasLeadingZero text then none else digitsIn? 10 text

/-- A number without its sign, and whether the sign is a minus. -/
def unsigned : List Char → Bool × List Char
  | '-' :: rest => (true, rest)
  | '+' :: rest => (false, rest)
  | text => (false, text)

/-- Reads an integer. -/
def integer? (text : List Char) : Option Int :=
  let value : Option Int := match text with
    | '0' :: 'x' :: digits => (digitsIn? 16 digits).map Int.ofNat
    | '0' :: 'o' :: digits => (digitsIn? 8 digits).map Int.ofNat
    | '0' :: 'b' :: digits => (digitsIn? 2 digits).map Int.ofNat
    | text =>
      let (negative, digits) := unsigned text
      (decimal? digits).map fun n => if negative then -Int.ofNat n else Int.ofNat n
  value.filter fun n => Text.integerMin ≤ n && n ≤ Text.integerMax

/-- The first number too large for a double: everything from here on rounds to infinity. -/
def doubleLimit : Nat := Nat.pow 2 1024 - Nat.pow 2 970

/-- Whether `mantissa * 10 ^ exponent` rounds to a finite double. -/
def isFiniteDouble (mantissa : Nat) (exponent : Int) : Bool :=
  let magnitude := (Nat.toDigits 10 mantissa).length + exponent
  if mantissa = 0 ∨ magnitude < 300 then true
  else if 320 < magnitude then false
  else mantissa * Nat.pow 10 exponent.toNat < doubleLimit * Nat.pow 10 (-exponent).toNat

/-- Whether a character may stand in a run of digits. -/
def isDigitOrUnderscore (c : Char) : Bool := c.isDigit || c = '_'

/-- The exponent of a float, if the text behind the digits is one. -/
def exponent? : List Char → Option Int
  | [] => none
  | c :: rest =>
    let (negative, digits) := unsigned rest
    if c = 'e' ∨ c = 'E' then
      (digitsIn? 10 digits).map fun n => if negative then -Int.ofNat n else Int.ofNat n
    else none

/-- The digits behind the point of a float with its exponent, from the text behind the whole part.
There must be one or the other. -/
def fraction? : List Char → Option (List Char × Int)
  | '.' :: rest => do
    let digits ← ungrouped? (rest.takeWhile isDigitOrUnderscore)
    match rest.dropWhile isDigitOrUnderscore with
    | [] => some (digits, 0)
    | behind => (exponent? behind).map (digits, ·)
  | text => (exponent? text).map ([], ·)

/-- Whether a text is a float. -/
def isFloat (text : List Char) : Bool :=
  let digits := (unsigned text).2
  let whole := digits.takeWhile isDigitOrUnderscore
  if digits = "inf".toList ∨ digits = "nan".toList then true
  else if hasLeadingZero whole then false
  else match ungrouped? whole, fraction? (digits.dropWhile isDigitOrUnderscore) with
    | some whole, some (part, exponent) =>
      ((Text.valueIn? 10 (whole ++ part)).map fun mantissa =>
        isFiniteDouble mantissa (exponent - part.length)).getD false
    | _, _ => false

end ModalEdit.Toml
