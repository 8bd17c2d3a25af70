import ModalEdit.Text.Number

/-!
# Dates and times in TOML

    datetime = date | time | date ("T" | "t" | " ") time offset?
    date     = year "-" month "-" day
    time     = hour ":" minute (":" second ("." digits)?)?
    offset   = "Z" | "z" | ("+" | "-") hour ":" minute

A year has four digits, every other part two. Days follow the Gregorian
calendar; a minute may have a leap second.
-/

namespace ModalEdit.Toml

/-- Whether a year has a leap day. -/
def isLeapYear (year : Nat) : Bool := year % 4 = 0 && (year % 100 ≠ 0 || year % 400 = 0)

/-- The number of days of a month; there are none in a month that does not exist. -/
def daysIn (year month : Nat) : Nat :=
  match month with
  | 1 | 3 | 5 | 7 | 8 | 10 | 12 => 31
  | 4 | 6 | 9 | 11 => 30
  | 2 => if isLeapYear year then 29 else 28
  | _ => 0

/-- Whether two digits stand for a number of at most `limit`. -/
def isWithin (limit : Nat) (tens ones : Char) : Bool :=
  (Text.digits? [tens, ones]).any (· ≤ limit)

/-- What follows a date at the start of a text. -/
def afterDate? : List Char → Option (List Char)
  | y₁ :: y₂ :: y₃ :: y₄ :: '-' :: m₁ :: m₂ :: '-' :: d₁ :: d₂ :: rest => do
    let year ← Text.digits? [y₁, y₂, y₃, y₄]
    let month ← Text.digits? [m₁, m₂]
    let day ← Text.digits? [d₁, d₂]
    if 1 ≤ day ∧ day ≤ daysIn year month then some rest else none
  | _ => none

/-- What follows the seconds of a time, which may be missing. -/
def afterSeconds? : List Char → Option (List Char)
  | ':' :: s₁ :: s₂ :: rest =>
    if isWithin 60 s₁ s₂ then
      match rest with
      | '.' :: d :: rest => if d.isDigit then some (rest.dropWhile Char.isDigit) else none
      | rest => some rest
    else none
  | rest => some rest

/-- What follows a time at the start of a text. -/
def afterTime? : List Char → Option (List Char)
  | h₁ :: h₂ :: ':' :: m₁ :: m₂ :: rest =>
    if isWithin 23 h₁ h₂ && isWithin 59 m₁ m₂ then afterSeconds? rest else none
  | _ => none

/-- Whether a text is the end of a time of day: nothing, or an offset. -/
def isOffset : List Char → Bool
  | [] => true
  | [c] => c = 'Z' || c = 'z'
  | [c, h₁, h₂, ':', m₁, m₂] => (c = '+' || c = '-') && isWithin 23 h₁ h₂ && isWithin 59 m₁ m₂
  | _ => false

/-- Whether a text is a date, a time or both. -/
def isDatetime (text : List Char) : Bool :=
  match afterDate? text with
  | none => afterTime? text = some []
  | some [] => true
  | some (c :: rest) => (c = 'T' || c = 't' || c = ' ') && (afterTime? rest).any isOffset

end ModalEdit.Toml
