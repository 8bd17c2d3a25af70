import ModalEdit.Pattern.ClassReader
import ModalEdit.Regex.Reader

/-!
# The constructs of patterns

    item       = character | "." | "^" | "$" | escape | class
    opening    = "(" | "(?:" | "(?flags:" | "(?P<name>" | "(?<name>"
    setting    = "(?flags)"
    repetition = ("*" | "+" | "?" | "{n}" | "{n,}" | "{n,m}") "?"?

Groups do not capture anything here; their names are only checked. With the flag
for it, blanks between constructs and comments from `#` to the end of a line are
skipped.
-/

namespace ModalEdit.Pattern

/-- A construct of a pattern. -/
abbrev Construct := Regex.Construct Flags Item GroupKind

/-! ## Groups -/

/-- Sets or clears the flag with that letter. -/
def setFlag? (flags : Flags) (value : Bool) (letter : Char) : Option Flags :=
  match letter with
  | 'i' => some { flags with ignoreCase := value }
  | 'm' => some { flags with multiLine := value }
  | 's' => some { flags with dotAll := value }
  | 'U' => some { flags with swapGreed := value }
  | 'u' => some { flags with unicode := value }
  | 'R' => some { flags with crlf := value }
  | 'x' => some { flags with verbose := value }
  | _ => none

/-- Reads flag letters up to `:` or `)`; letters after a dash clear their flag. No letter may
appear twice, and a dash needs a letter behind it. Tells whether there are any letters, too. -/
def readFlags (flags : Flags) (seen : List Char) (value : Bool) :
    List Char → Except PatternError ((Flags × Bool × Char) × List Char)
  | [] => .error .badFlags
  | c :: rest =>
    if c = ':' ∨ c = ')' then
      if seen.head? = some '-' then .error .badFlags
      else .ok ((flags, seen.isEmpty, c), rest)
    else if seen.contains c then .error .badFlags
    else if c = '-' then readFlags flags (c :: seen) false rest
    else match setFlag? flags value c with
      | some flags => readFlags flags (c :: seen) value rest
      | none => .error .badFlags

/-- Whether a character may stand in a group name. -/
def isNameChar (first : Bool) (c : Char) : Bool :=
  c = '_' || (Text.isWordChar c && (!first || !Text.isDecimalDigit c)) ||
    (!first && (c = '.' || c = '[' || c = ']'))

/-- Whether a group name is well formed. -/
def isGroupName : List Char → Bool
  | [] => false
  | c :: rest => isNameChar true c && rest.all (isNameChar false)

/-- A group with a name. -/
def namedGroup (flags : Flags) (name : List Char) : Except PatternError Construct :=
  if isGroupName name then .ok (.opening (some name) flags) else .error .badGroupName

/-- A named group after its `<`. -/
def readNamed (flags : Flags) (text : List Char) :
    Except PatternError (Construct × List Char) := do
  let (name, rest) ← readTo '>' text
  (namedGroup flags name).map (·, rest)

/-- What flags and the character behind them stand for: a group, or flags for the rest of the group
around them. -/
def ofFlags : Flags × Bool × Char → Except PatternError Construct
  | (flags, _, ':') => .ok (.opening none flags)
  | (_, true, _) => .error .badFlags
  | (flags, false, _) => .ok (.setting flags)

/-- Flags after `(?`. -/
def readFlagged (flags : Flags) (text : List Char) :
    Except PatternError (Construct × List Char) := do
  let (found, rest) ← readFlags flags [] true text
  (ofFlags found).map (·, rest)

/-- Whether look-around follows. -/
def isLookAround (text : List Char) : Bool := text.head? = some '=' || text.head? = some '!'

/-- What follows `(?`. -/
def readSpecial (flags : Flags) (text : List Char) :
    Except PatternError (Construct × List Char) :=
  match ['<'].isPrefixOf? text with
  | some rest => if isLookAround rest then .error .unsupported else readNamed flags rest
  | none =>
    match ['P', '<'].isPrefixOf? text with
    | some rest => readNamed flags rest
    | none => if isLookAround text then .error .unsupported else readFlagged flags text

/-- What follows `(`. -/
def readOpening (flags : Flags) (text : List Char) :
    Except PatternError (Construct × List Char) :=
  match ['?'].isPrefixOf? (flags.skip false text) with
  | some rest => readSpecial flags rest
  | none => .ok (.opening none flags, text)

/-! ## Repetitions -/

/-- How often something is repeated, as seldom as possible if a `?` follows; with `spaced`, blanks
may stand before it. -/
def readGreed (flags : Flags) (bounds : Bool → Regex.Operator) (spaced : Bool)
    (text : List Char) : Except PatternError (Construct × List Char) :=
  match ['?'].isPrefixOf? (if spaced then flags.skip false text else text) with
  | some rest => .ok (.repetition (bounds flags.swapGreed), rest)
  | none => .ok (.repetition (bounds !flags.swapGreed), text)

/-- A count: digits with optional white space around them. -/
def readCount (text : List Char) : Except PatternError (Nat × List Char) :=
  let text := text.dropWhile Text.isBlank
  let digits := text.takeWhile Char.isDigit
  match Text.digits? digits with
  | some n =>
    if n < Nat.pow 2 32 then .ok (n, (text.dropWhile Char.isDigit).dropWhile Text.isBlank)
    else .error .badCount
  | none => .error .badCount

/-- What follows the comma after a count. -/
def readRange (flags : Flags) (low : Nat) (text : List Char) :
    Except PatternError (Construct × List Char) :=
  match ['}'].isPrefixOf? (flags.skip false text) with
  | some rest => readGreed flags (.atLeast low) true rest
  | none => do
    let (high, rest) ← readCount (flags.skip false text)
    match ['}'].isPrefixOf? rest with
    | some rest =>
      if h : low ≤ high then readGreed flags (.between low high h) true rest
      else throw .badCount
    | none => throw .badCount

/-- What follows `{`. -/
def readCounts (flags : Flags) (text : List Char) :
    Except PatternError (Construct × List Char) := do
  let (low, rest) ← readCount (flags.skip false text)
  match ['}'].isPrefixOf? rest with
  | some rest => readGreed flags (.between low low (Nat.le_refl low)) true rest
  | none =>
    match [','].isPrefixOf? rest with
    | some rest => readRange flags low rest
    | none => throw .badCount

/-! ## All constructs -/

/-- The item of an atom. -/
def ofAtom (flags : Flags) : Atom → Item
  | .char c => .one (flags.fold (.single c)) 0
  | .set s => .one s 0
  | .assertion a => .assertion a

/-- The construct that starts with `c`, which is not skipped. -/
def readConstruct (flags : Flags) (c : Char) (rest : List Char) :
    Except PatternError (Construct × List Char) :=
  match c with
  | '(' => readOpening flags rest
  | ')' => .ok (.closing, rest)
  | '|' => .ok (.bar, rest)
  | '[' =>
    (readClass flags rest).map fun (set, rest) => (.item (.one set.meaning set.depth), rest)
  | '?' => readGreed flags (.between 0 1 (Nat.zero_le 1)) false rest
  | '*' => readGreed flags (.atLeast 0) false rest
  | '+' => readGreed flags (.atLeast 1) false rest
  | '{' => readCounts flags rest
  | '\\' =>
    (readEscape flags rest).map fun (atom, rest) => (.item (ofAtom flags atom), rest)
  | '.' => if flags.unicode then .ok (.item (.one flags.dotSet 0), rest) else .error .notText
  | '^' =>
    .ok (.item (.assertion (if flags.multiLine then .lineStart flags.crlf else .textStart)), rest)
  | '$' =>
    .ok (.item (.assertion (if flags.multiLine then .lineEnd flags.crlf else .textEnd)), rest)
  | c => .ok (.item (.one (flags.fold (.single c)) 0), rest)

/-- What is skipped of a comment after its `#`. -/
def skipComment (text : List Char) : Construct × List Char :=
  match Text.splitFirst '\n' text with
  | some (_, rest) => (.blank, rest)
  | none => (.comment, [])

/-- The construct at the beginning of a text. -/
def first? (flags : Flags) : List Char → Option (Construct × List Char)
  | [] => none
  | c :: rest =>
    if flags.verbose && Text.isBlank c then some (.blank, rest)
    else if flags.verbose && c = '#' then some (skipComment rest)
    else (readConstruct flags c rest).toOption

/-- The notation of patterns. -/
def lexer : Regex.Lexer Flags Item GroupKind := ⟨{}, first?⟩

end ModalEdit.Pattern
