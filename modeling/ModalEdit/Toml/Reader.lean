import ModalEdit.Toml.Datetime
import ModalEdit.Toml.Definition
import ModalEdit.Toml.Number
import ModalEdit.Toml.Quoted

/-!
# Reading TOML

    document  = line (newline line)*
    line      = (header | element | assignment)? comment?
    header    = "[" key "]"
    element   = "[[" key "]]"
    assignment = key "=" value
    key       = step ("." step)*
    step      = bare | string on one line
    value     = string | scalar | "[" items "]" | "{" assignments "}"

Inside brackets and braces line ends and comments are blanks, and a comma may
follow the last item. What is not TOML is refused as a whole.
-/

namespace ModalEdit.Toml

/-- Something read from the start of a text, with the shorter text behind it. -/
structure Lexeme (α : Type) (text : List Char) where
  value : α
  rest : List Char
  shorter : rest.length < text.length

namespace Lexeme

variable {α β : Type} {text : List Char}

/-- Something read from the rest of a longer text. -/
def within {inner : List Char} (l : Lexeme α inner) (h : inner.length ≤ text.length) :
    Lexeme α text :=
  ⟨l.value, l.rest, Nat.lt_of_lt_of_le l.shorter h⟩

/-- What is read means something else. -/
def map (f : α → β) (l : Lexeme α text) : Lexeme β text := ⟨f l.value, l.rest, l.shorter⟩

/-- What is read must mean something. -/
def filterMap? (f : α → Option β) (l : Lexeme α text) : Option (Lexeme β text) :=
  (f l.value).map fun b => ⟨b, l.rest, l.shorter⟩

end Lexeme

/-! ## Blanks and comments -/

/-- Whether a character is a blank of a line. -/
def isBlank (c : Char) : Bool := c = ' ' || c = '\t'

/-- The text behind the blanks at its start. -/
def skipBlanks (text : List Char) : List Char := text.dropWhile isBlank

/-- The text behind a comment. -/
def afterComment? : List Char → Option (List Char)
  | [] => some []
  | '\n' :: rest => some ('\n' :: rest)
  | '\r' :: '\n' :: rest => some ('\r' :: '\n' :: rest)
  | c :: rest => if isControl c then none else afterComment? rest

theorem length_skipBlanks_le (text : List Char) : (skipBlanks text).length ≤ text.length :=
  (List.dropWhile_suffix isBlank).length_le

theorem length_afterComment?_le {text rest : List Char} (h : afterComment? text = some rest) :
    rest.length ≤ text.length := by
  fun_induction afterComment? text with
  | case1 | case2 | case3 => exact Nat.le_of_eq (congrArg List.length (Option.some.inj h).symm)
  | case4 => exact absurd h (by simp)
  | case5 c comment _ _ _ ih => exact Nat.le_succ_of_le (ih h)

/-- The text behind blanks, line ends and comments. -/
def skipFiller? (text : List Char) : Option (List Char) :=
  match text with
  | [] => some []
  | c :: rest =>
    if isBlank c || c = '\n' then skipFiller? rest
    else if c = '\r' then
      match rest with
      | '\n' :: rest => skipFiller? rest
      | _ => none
    else if c = '#' then
      match _h : afterComment? rest with
      | some rest => skipFiller? rest
      | none => none
    else some (c :: rest)
  termination_by text.length
  decreasing_by
    · simp
    · simp only [List.length_cons]
      omega
    · have := length_afterComment?_le _h
      simp only [List.length_cons]
      omega

theorem length_skipFiller?_le {text rest : List Char} (h : skipFiller? text = some rest) :
    rest.length ≤ text.length := by
  fun_induction skipFiller? text with
  | case1 => simp_all
  | case2 c inner _ ih | case3 inner _ ih =>
    have := ih h
    simp only [List.length_cons]
    omega
  | case5 comment after ha _ _ ih =>
    have := ih h
    have := length_afterComment?_le ha
    simp only [List.length_cons]
    omega
  | case4 | case6 => simp at h
  | case7 => simp_all

/-- The text behind the rest of a line without a statement. -/
def endOfLine? (text : List Char) : Option (List Char) :=
  let behind := match skipBlanks text with
    | '#' :: comment => afterComment? comment
    | rest => some rest
  behind.bind fun rest => if rest.isEmpty then some [] else Quoting.afterNewline? rest

theorem length_endOfLine?_le {text rest : List Char} (h : endOfLine? text = some rest) :
    rest.length ≤ text.length := by
  have hb := length_skipBlanks_le text
  simp only [endOfLine?, Option.bind_eq_some_iff] at h
  obtain ⟨behind, hm, h⟩ := h
  have hm : behind.length ≤ (skipBlanks text).length := by
    split at hm
    next comment hc =>
      have := length_afterComment?_le hm
      simp only [hc, List.length_cons]
      omega
    next => simp_all
  split at h
  next => simp_all
  next =>
    have := Quoting.length_afterNewline?_lt h
    omega

/-! ## Keys -/

/-- Whether a character may stand in a key without quotes. -/
def isBareKeyChar (c : Char) : Bool := c.isAlphanum || c = '_' || c = '-'

/-- Reads a string. -/
def readString? (text : List Char) : Option (Lexeme (Quoting × String) text) :=
  match ho : Quoting.opening? text with
  | none => none
  | some (q, inside) =>
    match hs : q.split? (q.skipFirstNewline inside) with
    | none => none
    | some (body, rest) =>
      (q.decode? body).map fun chars =>
        ⟨(q, String.ofList chars), rest, by
          have := Quoting.length_opening?_lt ho
          have := q.length_skipFirstNewline_le inside
          have := Quoting.length_split?_lt hs
          omega⟩

/-- Reads a run of characters of a kind. -/
def readRun? (kind : Char → Bool) (text : List Char) : Option (Lexeme (List Char) text) :=
  match text with
  | [] => none
  | c :: rest =>
    if kind c then
      some ⟨c :: rest.takeWhile kind, rest.dropWhile kind,
        Nat.lt_succ_of_le (List.dropWhile_suffix kind).length_le⟩
    else none

/-- Reads a key up to a dot. -/
def readStep? (text : List Char) : Option (Lexeme String text) :=
  match readRun? isBareKeyChar text with
  | some run => some (run.map String.ofList)
  | none => (readString? text).bind (·.filterMap? fun (q, key) =>
      if q.multiline then none else some key)

/-- Reads a dotted key. -/
def readKey? (text : List Char) : Option (Lexeme DottedKey text) :=
  match readStep? text with
  | none => none
  | some step =>
    match _h : skipBlanks step.rest with
    | '.' :: rest =>
      have : (skipBlanks rest).length < text.length := by
        have := length_skipBlanks_le step.rest
        have := length_skipBlanks_le rest
        have := step.shorter
        simp only [_h, List.length_cons] at *
        omega
      (readKey? (skipBlanks rest)).map fun l =>
        (l.map fun key => { key with path := step.value :: key.path }).within (Nat.le_of_lt this)
    | _ => some (step.map fun key => ⟨[], key⟩)
  termination_by text.length

/-! ## Values -/

/-- Whether a character may stand in a number, a truth value or a date. -/
def isScalarChar (c : Char) : Bool :=
  isBareKeyChar c || c = '+' || c = '.' || c = ':'

/-- The value of a text without quotes. -/
def scalar? (text : List Char) : Option Value :=
  if text = "true".toList then some (.boolean true)
  else if text = "false".toList then some (.boolean false)
  else match integer? text with
    | some n => some (.integer n)
    | none =>
      if isFloat text then some (.float (String.ofList text))
      else if isDatetime text then some (.datetime (String.ofList text))
      else none

/-- Reads a text without quotes; between a date and a time there may be a blank. -/
def readBare? (text : List Char) : Option (Lexeme (List Char) text) :=
  (readRun? isScalarChar text).map fun run =>
    match hr : run.rest with
    | ' ' :: d :: rest =>
      if d.isDigit ∧ afterDate? run.value = some [] then
        let time := (d :: rest).takeWhile isScalarChar
        ⟨run.value ++ ' ' :: time, (d :: rest).dropWhile isScalarChar, by
          have := (List.dropWhile_suffix (l := d :: rest) isScalarChar).length_le
          have := run.shorter
          simp only [hr, List.length_cons] at *
          omega⟩
      else run
    | _ => run

/-- Reads items with commas between them up to a closing bracket. -/
def readItems? {α : Type} (closer : Char) (item : (text : List Char) → Option (Lexeme α text))
    (text : List Char) : Option (Lexeme (List α) text) :=
  match hs : skipFiller? text with
  | none | some [] => none
  | some (c :: start) =>
    if c = closer then
      some ⟨[], start, by
        have := length_skipFiller?_le hs
        simp only [List.length_cons] at this
        omega⟩
    else match item (c :: start) with
      | none => none
      | some first =>
        match ha : skipFiller? first.rest with
        | none | some [] => none
        | some (d :: rest) =>
          have shorter : rest.length < text.length := by
            have := length_skipFiller?_le hs
            have := length_skipFiller?_le ha
            have := first.shorter
            simp only [List.length_cons] at *
            omega
          if d = closer then some ⟨[first.value], rest, shorter⟩
          else if d = ',' then
            (readItems? closer item rest).map fun l =>
              (l.map (first.value :: ·)).within (Nat.le_of_lt shorter)
          else none
  termination_by text.length

/-- Reads a key and its value. -/
def readAssignment? (value : (text : List Char) → Option (Lexeme Value text)) (text : List Char) :
    Option (Lexeme (DottedKey × Value) text) :=
  match readKey? text with
  | none => none
  | some key =>
    match hb : skipBlanks key.rest with
    | '=' :: rest =>
      (value (skipBlanks rest)).map fun v =>
        (v.map (key.value, ·)).within (by
          have := length_skipBlanks_le key.rest
          have := length_skipBlanks_le rest
          have := key.shorter
          simp only [hb, List.length_cons] at *
          omega)
    | _ => none

/-- The table that assignments define. -/
def inlineTable? (assignments : List (DottedKey × Value)) : Option Value :=
  (Table.ofStatements? (assignments.map fun a => .assignment a.1 a.2)).map .table

/-- Reads a value in which arrays and tables nest at most that deep. -/
def readValue? (depth : Nat) (text : List Char) : Option (Lexeme Value text) :=
  match depth, text with
  | depth + 1, '[' :: inside =>
    (readItems? ']' (readValue? depth) inside).map fun l => (l.map .array).within (by simp)
  | depth + 1, '{' :: inside =>
    (readItems? '}' (readAssignment? (readValue? depth)) inside).bind fun l =>
      (l.filterMap? inlineTable?).map (·.within (by simp))
  | _, text =>
    match readString? text with
    | some l => some (l.map fun (_, chars) => .string chars)
    | none => (readBare? text).bind (·.filterMap? scalar?)

/-- How deep arrays and tables may nest. -/
def nestingLimit : Nat := 80

/-! ## Documents -/

/-- Reads the key of a header and the brackets behind it. -/
def readHeader? (brackets : List Char) (text : List Char) : Option (Lexeme DottedKey text) :=
  (readKey? (skipBlanks text)).bind fun key =>
    if brackets.isPrefixOf (skipBlanks key.rest) then
      some ⟨key.value, (skipBlanks key.rest).drop brackets.length, by
        have := length_skipBlanks_le text
        have := length_skipBlanks_le key.rest
        have := key.shorter
        rw [List.length_drop]
        omega⟩
    else none

/-- Reads a statement. -/
def readStatement? (text : List Char) : Option (Lexeme Statement text) :=
  match text with
  | '[' :: '[' :: rest =>
    (readHeader? [']', ']'] rest).map fun l => (l.map .element).within (by simp; omega)
  | '[' :: rest => (readHeader? [']'] rest).map fun l => (l.map .header).within (by simp)
  | text => (readAssignment? (readValue? nestingLimit) text).map fun l =>
      l.map fun (key, value) => .assignment key value

/-- Reads the statements of a document. -/
def readStatements? (text : List Char) : Option (List Statement) :=
  match _hs : skipFiller? text with
  | none => none
  | some [] => some []
  | some (c :: start) =>
    match readStatement? (c :: start) with
    | none => none
    | some statement =>
      match _he : endOfLine? statement.rest with
      | none => none
      | some rest => (readStatements? rest).map (statement.value :: ·)
  termination_by text.length
  decreasing_by
    have := length_skipFiller?_le _hs
    have := length_endOfLine?_le _he
    have := statement.shorter
    omega

/-- Reads a document. A byte order mark at its start means nothing. -/
def parse? (text : String) : Option Table :=
  let chars := text.toList
  let chars := if chars.head? = some '\uFEFF' then chars.drop 1 else chars
  (readStatements? chars).bind Table.ofStatements?

end ModalEdit.Toml
