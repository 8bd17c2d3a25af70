import ModalEdit.CommandLine.Span
import ModalEdit.CommandLine.Token
import ModalEdit.Text.Bytes

/-!
# Reading the tokens of a command line

    line      = (command (separator command)*)?
    separator = ";" | newline
    command   = word (blank+ word)*
    word      = bare | quoted | block | expansion
    quoted    = a string between two equal quotes
    block     = "%" opener … closer
    expansion = "%" ("sh" | "reg" | "opt" | "val" | "arg") opener … closer

The delimiters of a block are a pair of brackets, which nest, or one other
punctuation character on both sides. A `#` where a word could start comments out
the rest of the line.

In strict mode a string or block without end and an unknown expansion are
errors. In lenient mode, meant for lines still being typed, they reach to the
end of the line, or count as plain blocks.
-/

namespace ModalEdit.CommandLine

open ModalEdit.Text (byteLength)

/-- How to treat a line that is not finished. -/
inductive Mode where
  | strict
  | lenient
  deriving DecidableEq, Repr

/-- A token, the position after it with its closing delimiter, and what follows. -/
structure Lexeme where
  token : Token
  next : Nat
  rest : List Char

/-- A separator. -/
def separatorLexeme (position : Nat) (c : Char) (rest : List Char) : Lexeme :=
  ⟨⟨.separator, String.singleton c, position, position + c.utf8Size⟩, position + c.utf8Size, rest⟩

/-- A bare word. -/
def wordLexeme (position : Nat) (text : List Char) : Lexeme :=
  let (source, after) := wordSpan text
  let stop := position + byteLength source
  ⟨⟨.raw, String.ofList (unescape endsWord source), position, stop⟩, stop, after⟩

/-- The lexeme of a construct without end: an error unless such constructs are allowed. -/
def unterminated (mode : Mode) (fault : ParseFault) (position : Nat) (token : Token) :
    Except ParseError Lexeme :=
  match mode with
  | .strict => .error ⟨fault, position⟩
  | .lenient => .ok ⟨token, token.stop, []⟩

/-- A string whose opening quote stands at `position`, before `text`. -/
def quotedLexeme (mode : Mode) (position : Nat) (quote : Char) (text : List Char) :
    Except ParseError Lexeme :=
  let (source, after?) := quotedSpan quote text
  let start := position + quote.utf8Size
  let stop := start + byteLength source
  let token : Token := ⟨.raw, String.ofList (unescape (· = quote) source), start, stop⟩
  match after? with
  | some after => .ok ⟨token, stop + quote.utf8Size, after⟩
  | none => unterminated mode .unterminatedString position token

/-- The kind of a block with the given letters. -/
def blockKind (mode : Mode) (position : Nat) (letters : List Char) :
    Except ParseError TokenKind :=
  if letters.isEmpty then .ok .raw
  else match Expansion.ofName? letters, mode with
    | some e, _ => .ok (.expand e)
    | none, .strict => .error ⟨.unknownExpansion (String.ofList letters), position⟩
    | none, .lenient => .ok .raw

/-- A block whose `%` stands at `position`. -/
def blockLexeme (mode : Mode) (position : Nat) (head : BlockHead) : Except ParseError Lexeme :=
  (blockKind mode position head.letters).bind fun kind =>
    let (source, after?) := blockSpan head.opener head.closer 0 head.body
    let start := position + 1 + byteLength head.letters + head.opener.utf8Size
    let stop := start + byteLength source
    let token : Token := ⟨kind, String.ofList source, start, stop⟩
    match after? with
    | some after => .ok ⟨token, stop + head.closer.utf8Size, after⟩
    | none => unterminated mode .unterminatedBlock position token

/-- The word that starts with `c` at `position`. -/
def wordStarting (mode : Mode) (position : Nat) (c : Char) (rest : List Char) :
    Except ParseError Lexeme :=
  if isQuote c then quotedLexeme mode position c rest
  else match if c = '%' then blockHead? rest else none with
    | some head => blockLexeme mode position head
    | none => .ok (wordLexeme position (c :: rest))

/-! ## Progress -/

theorem unterminated_rest {mode : Mode} {fault : ParseFault} {position : Nat} {token : Token}
    {l : Lexeme} (h : unterminated mode fault position token = .ok l) : l.rest = [] := by
  cases mode with
  | strict => simp [unterminated] at h
  | lenient => simp only [unterminated, Except.ok.injEq] at h; rw [← h]

theorem quotedLexeme_rest {mode : Mode} {position : Nat} {quote : Char} {text : List Char}
    {l : Lexeme} (h : quotedLexeme mode position quote text = .ok l) :
    l.rest.length ≤ text.length := by
  unfold quotedLexeme at h
  cases ha : (quotedSpan quote text).2 with
  | none => simp only [ha] at h; simp [unterminated_rest h]
  | some after =>
    simp only [ha, Except.ok.injEq] at h
    rw [← h, quotedSpan_closed ha]
    simp only [List.length_append, List.length_cons]
    omega

theorem blockLexeme_rest {mode : Mode} {position : Nat} {head : BlockHead} {l : Lexeme}
    (h : blockLexeme mode position head = .ok l) : l.rest.length ≤ head.body.length := by
  unfold blockLexeme at h
  cases hk : blockKind mode position head.letters with
  | error e => simp [hk, Except.bind] at h
  | ok kind =>
    simp only [hk, Except.bind] at h
    cases ha : (blockSpan head.opener head.closer 0 head.body).2 with
    | none => simp only [ha] at h; simp [unterminated_rest h]
    | some after =>
      simp only [ha, Except.ok.injEq] at h
      rw [← h, blockSpan_closed ha]
      simp only [List.length_append, List.length_cons]
      omega

theorem wordLexeme_rest {position : Nat} {c : Char} {rest : List Char} (h : endsWord c = false) :
    (wordLexeme position (c :: rest)).rest.length ≤ rest.length := by
  have happ := congrArg List.length (wordSpan_append (c :: rest))
  have hne : 0 < (wordSpan (c :: rest)).1.length := List.length_pos_iff.mpr (wordSpan_ne_nil h)
  simp only [List.length_append, List.length_cons] at happ
  show (wordSpan (c :: rest)).2.length ≤ rest.length
  omega

theorem wordStarting_rest {mode : Mode} {position : Nat} {c : Char} {rest : List Char}
    {l : Lexeme} (hc : endsWord c = false) (h : wordStarting mode position c rest = .ok l) :
    l.rest.length ≤ rest.length := by
  unfold wordStarting at h
  split at h
  next => exact quotedLexeme_rest h
  next =>
    split at h
    next head hh =>
      split at hh
      next =>
        have := congrArg List.length (blockHead_eq hh)
        have := blockLexeme_rest h
        simp only [List.length_append, List.length_cons] at *
        omega
      next => simp at hh
    next =>
      simp only [Except.ok.injEq] at h
      rw [← h]
      exact wordLexeme_rest hc

/-! ## The tokens of a line -/

/-- The tokens of the rest `text` of a line, which starts at byte `position`. -/
def scan (mode : Mode) (position : Nat) (text : List Char) : Except ParseError (List Token) :=
  match text with
  | [] => .ok []
  | c :: rest =>
    if isBlank c then scan mode (position + c.utf8Size) rest
    else if c = ';' ∨ c = '\n' then
      let l := separatorLexeme position c rest
      (scan mode l.next rest).map (l.token :: ·)
    else if c = '#' then
      let comment := rest.takeWhile (· ≠ '\n')
      scan mode (position + c.utf8Size + byteLength comment) (rest.dropWhile (· ≠ '\n'))
    else
      match _h : wordStarting mode position c rest with
      | .ok l => (scan mode l.next l.rest).map (l.token :: ·)
      | .error e => .error e
  termination_by text.length
  decreasing_by
    · simp
    · simp
    · have := (List.dropWhile_suffix (l := rest) (· ≠ '\n')).length_le
      simp only [List.length_cons]
      omega
    · have := wordStarting_rest (by simp_all [endsWord]) _h
      simp only [List.length_cons]
      omega

/-- The tokens of a finished line. -/
def tokenize (line : String) : Except ParseError (List Token) :=
  scan .strict 0 line.toList

/-- The tokens of a line that may still be being typed. -/
def tokenizePartial (line : String) : List Token :=
  match scan .lenient 0 line.toList with
  | .ok tokens => tokens
  | .error _ => []

end ModalEdit.CommandLine
