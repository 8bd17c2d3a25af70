import ModalEdit.Key
import ModalEdit.Text.Blank
import ModalEdit.Text.Bytes
import ModalEdit.Text.Split

/-!
# Key sequences

Reading a text as a sequence of key presses.

    sequence  = (bracketed | character)*
    bracketed = "<" (modifier "-")* name ">"
    modifier  = "c" | "a" | "s"

A `<` that is not closed, or whose brackets are empty or hold white space or
another `<`, stands for itself. Brackets that hold anything else must name a key.
-/

namespace ModalEdit

/-- Brackets that name no key. -/
structure KeyParseError where
  /-- The text between the brackets. -/
  name : String
  /-- Byte offset of the opening bracket. -/
  position : Nat
  deriving DecidableEq, Repr

/-- The wording shown to users. -/
def KeyParseError.message (e : KeyParseError) : String :=
  s!"invalid key '<{e.name}>' at byte {e.position}"

namespace Key

/-- Splits the leading modifiers off the text between brackets.

A dash counts as a separator only if a modifier letter precedes it and something follows it. -/
def splitModifiers (held : Modifiers) : List Char → Modifiers × List Char
  | letter :: '-' :: next :: rest =>
    match held.add? letter with
    | some more => splitModifiers more (next :: rest)
    | none => (held, letter :: '-' :: next :: rest)
  | name => (held, name)

/-- The key that the text between brackets names. -/
def ofBracketText? (content : List Char) : Option Key :=
  let (modifiers, name) := splitModifiers {} content
  (KeyCode.ofName? name).map fun code => ⟨modifiers, code⟩

/-- Whether the text between brackets makes the brackets literal. -/
def isLiteralContent (content : List Char) : Bool :=
  content.isEmpty || content.any Text.isBlank || content.contains '<'

/-- The text between the brackets and the text after them, if `rest`, which follows a `<`,
closes a bracketed key. -/
def bracketContent? (rest : List Char) : Option (List Char × List Char) :=
  (Text.splitFirst '>' rest).filter fun parts => !isLiteralContent parts.1

theorem length_lt_of_bracketContent {rest content after : List Char}
    (h : bracketContent? rest = some (content, after)) : after.length < rest.length :=
  Text.length_lt_of_splitFirst (Option.filter_eq_some_iff.mp h).1

/-- The key that a character outside brackets stands for. -/
def ofPlain (c : Char) : Key :=
  if c = '\n' then ofCode .enter else if c = '\t' then ofCode .tab else ofChar c

/-- Reads the keys of a text that starts at byte `position`. -/
def readFrom (position : Nat) (text : List Char) : Except KeyParseError (List Key) :=
  match text with
  | [] => .ok []
  | c :: rest =>
    if c = '<' then
      match h : bracketContent? rest with
      | some (content, after) =>
        have := length_lt_of_bracketContent h
        match ofBracketText? content with
        | some key =>
          (readFrom (position + Text.byteLength content + 2) after).map (key :: ·)
        | none => .error ⟨String.ofList content, position⟩
      | none => (readFrom (position + c.utf8Size) rest).map (ofPlain c :: ·)
    else (readFrom (position + c.utf8Size) rest).map (ofPlain c :: ·)
  termination_by text.length
  decreasing_by all_goals (simp only [List.length_cons]; omega)

/-- Reads a key sequence such as `i<c-r><esc>`. -/
def readSequence (text : String) : Except KeyParseError (List Key) :=
  readFrom 0 text.toList

end Key

end ModalEdit
