/-!
# Reading numbers

Decimal numbers as users write them: an optional sign, then at least one digit,
leading zeros allowed, nothing else. A number outside the given bounds is refused.
-/

namespace ModalEdit.Text

/-- The value of a decimal digit. -/
def digit? (c : Char) : Option Nat :=
  if '0' ≤ c ∧ c ≤ '9' then some (c.toNat - '0'.toNat) else none

/-- The value of a run of digits that follows digits worth `acc`. -/
def digitsFrom? (acc : Nat) : List Char → Option Nat
  | [] => some acc
  | c :: cs => (digit? c).bind fun d => digitsFrom? (10 * acc + d) cs

/-- The value of a non-empty run of digits. -/
def digits? : List Char → Option Nat
  | [] => none
  | c :: cs => digitsFrom? 0 (c :: cs)

/-- The value of a digit of a base up to 36; letters continue the digits in either case. -/
def digitIn? (base : Nat) (c : Char) : Option Nat :=
  let value :=
    if c.isDigit then some (c.toNat - '0'.toNat)
    else if 'a' ≤ c ∧ c ≤ 'z' then some (c.toNat - 'a'.toNat + 10)
    else if 'A' ≤ c ∧ c ≤ 'Z' then some (c.toNat - 'A'.toNat + 10)
    else none
  value.filter (· < base)

/-- The number that digits of a base stand for. -/
def valueIn? (base : Nat) (digits : List Char) : Option Nat :=
  digits.foldlM (fun n c => (digitIn? base c).map (base * n + ·)) 0

/-- The character with a code point. -/
def charOfCode? (n : Nat) : Option Char :=
  if h : n.isValidChar then some (Char.ofNatAux n h) else none

/-- Reads a natural number of at most `limit`; a leading `+` is allowed. -/
def readNat? (limit : Nat) (text : List Char) : Option Nat :=
  let value := match text with
    | '+' :: rest => digits? rest
    | other => digits? other
  value.filter (· ≤ limit)

/-- Reads an integer between `low` and `high`; a leading `+` or `-` is allowed. -/
def readInt? (low high : Int) (text : List Char) : Option Int :=
  let value : Option Int := match text with
    | '+' :: rest => (digits? rest).map Int.ofNat
    | '-' :: rest => (digits? rest).map fun n => -Int.ofNat n
    | other => (digits? other).map Int.ofNat
  value.filter fun n => low ≤ n && n ≤ high

/-- The largest index, line or count that can be written: 64 bits. -/
def indexLimit : Nat := 18446744073709551615

/-- Integers of options lie between `integerMin` and `integerMax`: 64 bits with sign. -/
def integerMin : Int := -9223372036854775808

/-- See `integerMin`. -/
def integerMax : Int := 9223372036854775807

end ModalEdit.Text
