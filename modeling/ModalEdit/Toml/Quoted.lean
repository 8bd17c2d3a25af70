import ModalEdit.Text.Number

/-!
# Strings in TOML

    basic     = '"' (character | escape)* '"'
    literal   = "'" character* "'"
    multiline = three quotes, text over several lines, three quotes

Strings in double quotes have escapes, those in apostrophes have none. In a
string over several lines a line end right behind the opening quotes is dropped,
one or two quotes may stand before the closing ones, and in double quotes a
backslash at the end of a line joins it with the next text.
-/

namespace ModalEdit.Toml

/-- Whether a character must not stand in strings and comments. -/
def isControl (c : Char) : Bool := (c.toNat < 0x20 && c ≠ '\t') || c = '\x7f'

/-- How a string is quoted. -/
structure Quoting where
  quote : Char
  /-- Whether the string may hold line ends. -/
  multiline : Bool
  deriving DecidableEq, Repr

namespace Quoting

/-- Whether a backslash starts an escape. -/
def hasEscapes (q : Quoting) : Bool := q.quote = '"'

/-- The opening quotes of a string, with the text behind them. -/
def opening? : List Char → Option (Quoting × List Char)
  | a :: b :: c :: rest =>
    if a ≠ '"' ∧ a ≠ '\x27' then none
    else if b = a ∧ c = a then some (⟨a, true⟩, rest)
    else some (⟨a, false⟩, b :: c :: rest)
  | a :: rest => if a ≠ '"' ∧ a ≠ '\x27' then none else some (⟨a, false⟩, rest)
  | [] => none

/-! ## Where a string ends -/

/-- The number of quotes around a string on either side. -/
def width (q : Quoting) : Nat := if q.multiline then 3 else 1

/-- How many more quotes can stand before the closing ones. -/
def spare (q : Quoting) : Nat := if q.multiline then 2 else 0

/-- At closing quotes, the quotes that still belong to the string and the text behind it. -/
def closing? (q : Quoting) (text : List Char) : Option (List Char × List Char) :=
  let run := (text.takeWhile (· = q.quote)).length
  if run < q.width then none
  else
    let kept := min (run - q.width) q.spare
    some (List.replicate kept q.quote, text.drop (kept + q.width))

/-- The text of a string before its escapes are read, and what follows the string. -/
def split? (q : Quoting) : List Char → Option (List Char × List Char)
  | [] => none
  | c :: rest =>
    match q.closing? (c :: rest) with
    | some parts => some parts
    | none =>
      if q.hasEscapes ∧ c = '\\' then
        match rest with
        | [] => none
        | d :: rest => (q.split? rest).map fun (body, after) => (c :: d :: body, after)
      else (q.split? rest).map fun (body, after) => (c :: body, after)

/-! ## What a string means -/

/-- The text behind a line end at the start of a text. -/
def afterNewline? : List Char → Option (List Char)
  | '\n' :: rest => some rest
  | '\r' :: '\n' :: rest => some rest
  | _ => none

/-- The text behind the blanks and line ends at the start of a text. -/
def skipSpace : List Char → List Char
  | [] => []
  | c :: rest =>
    if c = ' ' ∨ c = '\t' ∨ c = '\n' then skipSpace rest
    else match c, rest with
      | '\r', '\n' :: rest => skipSpace rest
      | c, rest => c :: rest

/-- What follows a backslash that ends a line. -/
def joinedLine? (text : List Char) : Option (List Char) :=
  (afterNewline? (text.dropWhile fun c => c = ' ' || c = '\t')).map skipSpace

/-- The character that a backslash and a letter stand for, and the number of digits used. -/
def escape? (letter : Char) (rest : List Char) : Option (Char × Nat) :=
  let code (digits : Nat) : Option (Char × Nat) :=
    if rest.length < digits then none
    else ((Text.valueIn? 16 (rest.take digits)).bind Text.charOfCode?).map (·, digits)
  match letter with
  | 'b' => some ('\x08', 0)
  | 't' => some ('\t', 0)
  | 'n' => some ('\n', 0)
  | 'f' => some ('\x0c', 0)
  | 'r' => some ('\r', 0)
  | 'e' => some ('\x1b', 0)
  | '"' => some ('"', 0)
  | '\\' => some ('\\', 0)
  | 'x' => code 2
  | 'u' => code 4
  | 'U' => code 8
  | _ => none

theorem length_skipSpace_le (text : List Char) : (skipSpace text).length ≤ text.length := by
  fun_induction skipSpace text with
  | case1 => exact Nat.le_refl _
  | case2 c rest _ ih =>
    rw [List.length_cons]
    omega
  | case3 rest _ ih =>
    rw [List.length_cons, List.length_cons]
    omega
  | case4 => exact Nat.le_refl _

theorem length_afterNewline?_lt {text rest : List Char} (h : afterNewline? text = some rest) :
    rest.length < text.length := by
  unfold afterNewline? at h
  split at h
  · rw [Option.some.inj h]
    exact Nat.lt_succ_self _
  · rw [Option.some.inj h]
    exact Nat.lt_succ_of_lt (Nat.lt_succ_self _)
  · exact absurd h (by simp)

theorem length_joinedLine?_le {text rest : List Char} (h : joinedLine? text = some rest) :
    rest.length ≤ text.length := by
  simp only [joinedLine?, Option.map_eq_some_iff] at h
  obtain ⟨after, ha, rfl⟩ := h
  have := length_skipSpace_le after
  have := length_afterNewline?_lt ha
  have := (List.dropWhile_suffix (l := text) fun c => c = ' ' || c = '\t').length_le
  omega

/-- The characters that the text of a string stands for. -/
def decode? (q : Quoting) (body : List Char) : Option (List Char) :=
  match body with
  | [] => some []
  | c :: rest =>
    if q.hasEscapes ∧ c = '\\' then
      match _h : if q.multiline then joinedLine? rest else none with
      | some after => q.decode? after
      | none =>
        match rest with
        | [] => none
        | letter :: rest =>
          match escape? letter rest with
          | some (c, digits) => (q.decode? (rest.drop digits)).map (c :: ·)
          | none => none
    else if c = '\n' then
      if q.multiline then (q.decode? rest).map (c :: ·) else none
    else if c = '\r' then
      match rest with
      | '\n' :: rest => if q.multiline then (q.decode? rest).map (c :: '\n' :: ·) else none
      | _ => none
    else if isControl c then none
    else (q.decode? rest).map (c :: ·)
  termination_by body.length
  decreasing_by
    · split at _h
      · have := length_joinedLine?_le _h
        simp only [List.length_cons]
        omega
      · simp at _h
    · simp only [List.length_drop, List.length_cons]
      omega
    · simp
    · simp only [List.length_cons]
      omega
    · simp

theorem width_pos (q : Quoting) : 0 < q.width := by
  unfold width
  split <;> omega

theorem length_closing?_lt {q : Quoting} {text kept after : List Char}
    (h : q.closing? text = some (kept, after)) : after.length < text.length := by
  simp only [closing?] at h
  split at h
  next => simp at h
  next hrun =>
    simp only [Option.some.injEq, Prod.mk.injEq] at h
    have := (List.takeWhile_prefix (l := text) (· = q.quote)).length_le
    have := q.width_pos
    rw [← h.2, List.length_drop]
    omega

theorem length_split?_lt {q : Quoting} {text body after : List Char}
    (h : q.split? text = some (body, after)) : after.length < text.length := by
  fun_induction split? q text generalizing body after with
  | case1 => simp at h
  | case2 c rest parts hc =>
    simp only [Option.some.injEq] at h
    exact length_closing?_lt (h ▸ hc)
  | case3 => simp at h
  | case4 c _ _ d rest ih =>
    simp only [Option.map_eq_some_iff, Prod.mk.injEq] at h
    obtain ⟨⟨b, a⟩, hs, _, ha⟩ := h
    have := ih hs
    rw [← ha]
    simp only [List.length_cons]
    omega
  | case5 c rest _ _ ih =>
    simp only [Option.map_eq_some_iff, Prod.mk.injEq] at h
    obtain ⟨⟨b, a⟩, hs, _, ha⟩ := h
    have := ih hs
    rw [← ha]
    simp only [List.length_cons]
    omega

theorem length_opening?_lt {text inside : List Char} {q : Quoting}
    (h : opening? text = some (q, inside)) : inside.length < text.length := by
  unfold opening? at h
  split at h
  · split at h
    · simp at h
    · split at h <;> simp only [Option.some.injEq, Prod.mk.injEq] at h <;> simp [← h.2]
      omega
  · split at h
    · simp at h
    · simp only [Option.some.injEq, Prod.mk.injEq] at h
      simp [← h.2]
  · simp at h

/-- The text of a string over several lines starts behind a first line end. -/
def skipFirstNewline (q : Quoting) (inside : List Char) : List Char :=
  if q.multiline then (afterNewline? inside).getD inside else inside

theorem length_skipFirstNewline_le (q : Quoting) (inside : List Char) :
    (q.skipFirstNewline inside).length ≤ inside.length := by
  unfold skipFirstNewline
  split
  · cases h : afterNewline? inside with
    | none => simp
    | some rest => exact Nat.le_of_lt (length_afterNewline?_lt h)
  · exact Nat.le_refl _

end Quoting

end ModalEdit.Toml
