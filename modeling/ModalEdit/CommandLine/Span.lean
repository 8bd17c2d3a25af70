/-!
# Spans of words

How far a bare word, a quoted string and a block reach, and what their text
means. Each `…Span` function splits the rest of a line into the source text of
the construct and what follows; `unescape` turns source text into content.

Main statements: a span and its rest make up the line again.
-/

namespace ModalEdit.CommandLine

/-- Blanks separate words. -/
def isBlank (c : Char) : Bool := c = ' ' || c = '\t' || c = '\r'

/-- The characters that end a bare word, and that a backslash makes part of it. -/
def endsWord (c : Char) : Bool := isBlank c || c = ';' || c = '\n'

/-- The quotes that delimit strings. -/
def isQuote (c : Char) : Bool := c = '\x27' || c = '"'

/-- Removes every backslash that stands before a character of the class `p`. -/
def unescape (p : Char → Bool) : List Char → List Char
  | c :: d :: rest =>
    if c = '\\' ∧ p d then d :: unescape p rest else c :: unescape p (d :: rest)
  | text => text

/-- A bare word: everything up to the next unescaped character that ends words. -/
def wordSpan : List Char → List Char × List Char
  | [] => ([], [])
  | [c] => if endsWord c then ([], [c]) else ([c], [])
  | c :: d :: rest =>
    if endsWord c then ([], c :: d :: rest)
    else if c = '\\' ∧ endsWord d then
      let (source, after) := wordSpan rest
      (c :: d :: source, after)
    else
      let (source, after) := wordSpan (d :: rest)
      (c :: source, after)

/-- A string after its opening quote: everything up to the next unescaped quote. The second part
is missing if the string is not closed. -/
def quotedSpan (quote : Char) : List Char → List Char × Option (List Char)
  | [] => ([], none)
  | [c] => if c = quote then ([], some []) else ([c], none)
  | c :: d :: rest =>
    if c = quote then ([], some (d :: rest))
    else if c = '\\' ∧ d = quote then
      let (source, after) := quotedSpan quote rest
      (c :: d :: source, after)
    else
      let (source, after) := quotedSpan quote (d :: rest)
      (c :: source, after)

/-- A block after its opening delimiter: everything up to the closing delimiter that is not
answered by an opening one inside. The second part is missing if the block is not closed. -/
def blockSpan (opener closer : Char) (depth : Nat) : List Char → List Char × Option (List Char)
  | [] => ([], none)
  | c :: rest =>
    if c = closer ∧ depth = 0 then ([], some rest)
    else
      let depth := if c = closer then depth - 1 else if c = opener then depth + 1 else depth
      let (source, after) := blockSpan opener closer depth rest
      (c :: source, after)

/-- The delimiter that closes a block opened by `opener`, if a block can be opened by it: the
other bracket of a pair, or the same punctuation character. -/
def closerOf? (opener : Char) : Option Char :=
  if opener = '{' then some '}'
  else if opener = '(' then some ')'
  else if opener = '[' then some ']'
  else if opener = '<' then some '>'
  else if opener = ';' ∨ opener = '#' then none
  else if isPunctuation opener then some opener
  else none
where
  /-- ASCII punctuation: the printable characters that are neither letters, digits nor space. -/
  isPunctuation (c : Char) : Bool :=
    '!' ≤ c && c ≤ '~' && !c.isAlphanum

/-- The parts of a block after its `%`. -/
structure BlockHead where
  letters : List Char
  opener : Char
  closer : Char
  body : List Char

/-- Reads the letters and the opening delimiter of a block. -/
def blockHead? (rest : List Char) : Option BlockHead :=
  match rest.dropWhile Char.isAlpha with
  | [] => none
  | opener :: body =>
    (closerOf? opener).map fun closer =>
      ⟨rest.takeWhile Char.isAlpha, opener, closer, body⟩

/-! ## Nothing is lost -/

theorem wordSpan_append (text : List Char) : (wordSpan text).1 ++ (wordSpan text).2 = text := by
  fun_induction wordSpan text <;> simp_all

/-- A bare word is never empty. -/
theorem wordSpan_ne_nil {c : Char} {rest : List Char} (h : endsWord c = false) :
    (wordSpan (c :: rest)).1 ≠ [] := by
  cases rest with
  | nil => simp [wordSpan, h]
  | cons d rest =>
    rw [wordSpan, if_neg (by simp [h])]
    split <;> simp

theorem quotedSpan_closed {quote : Char} {text after : List Char}
    (h : (quotedSpan quote text).2 = some after) :
    text = (quotedSpan quote text).1 ++ quote :: after := by
  fun_induction quotedSpan quote text <;> simp_all

theorem blockSpan_closed {opener closer : Char} {depth : Nat} {text after : List Char}
    (h : (blockSpan opener closer depth text).2 = some after) :
    text = (blockSpan opener closer depth text).1 ++ closer :: after := by
  induction text generalizing depth with
  | nil => simp [blockSpan] at h
  | cons c rest ih =>
    by_cases hc : c = closer ∧ depth = 0
    · simp only [blockSpan, hc, and_self, if_true, Option.some.injEq] at h
      simp [blockSpan, hc, h]
    · rw [blockSpan, if_neg hc] at h ⊢
      simp only at h ⊢
      rw [List.cons_append, ← ih h]

theorem blockHead_eq {rest : List Char} {head : BlockHead} (h : blockHead? rest = some head) :
    rest = head.letters ++ head.opener :: head.body := by
  unfold blockHead? at h
  split at h
  next => simp at h
  next opener body hd =>
    obtain ⟨closer, _, rfl⟩ := Option.map_eq_some_iff.mp h
    rw [← hd, List.takeWhile_append_dropWhile]

end ModalEdit.CommandLine
