import ModalEdit.Text.Number

/-!
# Keys

A key press is a key code with modifiers. Plain characters are written as
themselves; every other key is written between angle brackets, modifiers first:
`<c-a>`, `<a-x>`, `<s-tab>`, `<esc>`, `<lt>`.
-/

namespace ModalEdit

/-- The keys that can be held during a press. -/
structure Modifiers where
  ctrl : Bool := false
  alt : Bool := false
  shift : Bool := false
  deriving DecidableEq, Repr, Inhabited

namespace Modifiers

/-- Whether nothing is held. -/
def isEmpty (m : Modifiers) : Bool := !m.ctrl && !m.alt && !m.shift

/-- Adds the modifier that a letter stands for. -/
def add? (m : Modifiers) (letter : Char) : Option Modifiers :=
  if letter = 'c' then some { m with ctrl := true }
  else if letter = 'a' then some { m with alt := true }
  else if letter = 's' then some { m with shift := true }
  else none

/-- The letters of the modifiers, each with its dash. -/
def text (m : Modifiers) : List Char :=
  (if m.ctrl then ['c', '-'] else []) ++ (if m.alt then ['a', '-'] else []) ++
    (if m.shift then ['s', '-'] else [])

end Modifiers

/-- The key itself. -/
inductive KeyCode where
  | char (c : Char)
  | escape
  | enter
  | tab
  | backspace
  | delete
  | up
  | down
  | left
  | right
  | home
  | lineEnd
  | pageUp
  | pageDown
  /-- The function key with this number. -/
  | function (n : Nat)
  deriving DecidableEq, Repr, Inhabited

namespace KeyCode

/-- The keys that have a name, with the name. -/
def named : List (String × KeyCode) :=
  [("esc", .escape), ("ret", .enter), ("tab", .tab), ("backspace", .backspace),
   ("del", .delete), ("up", .up), ("down", .down), ("left", .left), ("right", .right),
   ("home", .home), ("end", .lineEnd), ("pageup", .pageUp), ("pagedown", .pageDown),
   ("space", .char ' '), ("lt", .char '<'), ("gt", .char '>'), ("minus", .char '-'),
   ("semicolon", .char ';')]

/-- Reads `f1` to `f12`. -/
def ofFunctionName? : List Char → Option KeyCode
  | 'f' :: digits =>
    ((Text.readNat? 255 digits).filter fun n => 1 ≤ n && n ≤ 12).map .function
  | _ => none

/-- A single character names itself. -/
def ofSingle? : List Char → Option KeyCode
  | [c] => some (.char c)
  | _ => none

/-- Reads the name written inside angle brackets. -/
def ofName? (name : List Char) : Option KeyCode :=
  ((named.find? fun entry => entry.1.toList = name).map (·.2)).or
    ((ofFunctionName? name).or (ofSingle? name))

/-- The name written inside angle brackets. -/
def name (code : KeyCode) : List Char :=
  match named.find? fun entry => entry.2 = code, code with
  | some entry, _ => entry.1.toList
  | none, .function n => 'f' :: (toString n).toList
  | none, .char c => [c]
  | none, _ => []

end KeyCode

/-- A key press. -/
structure Key where
  modifiers : Modifiers := {}
  code : KeyCode
  deriving DecidableEq, Repr, Inhabited

namespace Key

/-- The press of a character without modifiers. -/
def ofChar (c : Char) : Key := { code := .char c }

/-- The press of a key without modifiers. -/
def ofCode (code : KeyCode) : Key := { code := code }

/-- The character of an unmodified character key. -/
def char? (key : Key) : Option Char :=
  match key.code with
  | .char c => if key.modifiers.isEmpty then some c else none
  | _ => none

/-- Whether a character has to be written in brackets even without modifiers. -/
def needsBrackets (c : Char) : Bool := c = '<' || c = '>' || c = ' '

/-- The written form between brackets. -/
def bracketed (key : Key) : List Char :=
  '<' :: (key.modifiers.text ++ key.code.name ++ ['>'])

/-- The written form of a key. -/
def chars (key : Key) : List Char :=
  match key.char? with
  | some c => if needsBrackets c then key.bracketed else [c]
  | none => key.bracketed

/-- The written form of a key, as a string. -/
def text (key : Key) : String := String.ofList key.chars

end Key

end ModalEdit
