import ModalEdit.CommandLine.Tokens
import ModalEdit.Proofs.WordSpans

/-!
# The pieces of a command line

A command line is written in pieces: a gap of blanks and comments, then a word or separator in its
form — bare, between quotes, as a block. `Spells` says which sources a form can have, and `Reads`
which pieces make up a line. Little depends on what follows a piece: lenient mode allows what strict
mode does (`Reads.lenient`), and the pieces stay the same if the line ends earlier behind them
(`Reads.of_append`).
-/

namespace ModalEdit.CommandLine

open ModalEdit.Text (byteLength byteLength_append)

/-! ## Escapes -/

/-- **`withoutEscapes p text`** — the text without each backslash that stands right before a
character of the class `p`. -/
def withoutEscapes (p : Char → Bool) : List Char → List Char
  | [] => []
  | c :: rest =>
    if c = '\\' ∧ rest.head?.any p = true then withoutEscapes p rest
    else c :: withoutEscapes p rest

/-- What is escaped is no backslash, so no backslash is left out for one that is left out itself. -/
theorem unescape_eq_withoutEscapes {p : Char → Bool} (hp : p '\\' = false) (text : List Char) :
    unescape p text = withoutEscapes p text := by
  fun_induction unescape p text with
  | case1 c d rest h ih =>
    have hd : d ≠ '\\' := by
      rintro rfl
      rw [hp] at h
      exact Bool.false_ne_true h.2
    simp [withoutEscapes, h, hd, ih]
  | case2 c d rest h ih =>
    rw [withoutEscapes, if_neg (by simpa using h), ih]
  | case3 text h =>
    match text with
    | [] => rfl
    | [c] => simp [withoutEscapes]
    | c :: d :: rest => exact absurd rfl (h c d rest)

theorem isQuote_iff {c : Char} : isQuote c = true ↔ c = '\x27' ∨ c = '"' := by simp [isQuote]

theorem unescape_endsWord (text : List Char) :
    unescape endsWord text = withoutEscapes endsWord text :=
  unescape_eq_withoutEscapes endsWord_backslash text

theorem unescape_quote {quote : Char} (h : isQuote quote = true) (text : List Char) :
    unescape (· = quote) text = withoutEscapes (· = quote) text := by
  refine unescape_eq_withoutEscapes ?_ text
  rcases isQuote_iff.mp h with rfl | rfl <;> decide

/-! ## Forms -/

/-- How a token is written. -/
inductive Form where
  | separator
  | bare
  /-- Between quotes, the second of which may be missing at the end of the line. -/
  | quoted (quote : Char) (closed : Bool)
  /-- A `%` with letters, between delimiters, the second of which may be missing. -/
  | block (letters : List Char) (opener closer : Char) (closed : Bool)
  deriving DecidableEq, Repr

namespace Form

/-- What is written before the source of a token. -/
def opening : Form → List Char
  | separator | bare => []
  | quoted quote _ => [quote]
  | block letters opener _ _ => '%' :: (letters ++ [opener])

/-- What is written after the source of a token. -/
def closing : Form → List Char
  | separator | bare => []
  | quoted quote closed => if closed then [quote] else []
  | block _ _ closer closed => if closed then [closer] else []

/-- The role of a token in this form. -/
def kind : Form → TokenKind
  | separator => .separator
  | bare | quoted _ _ => .raw
  | block letters _ _ _ => (Expansion.ofName? letters).elim .raw .expand

/-- The content that a source has in this form. -/
def content : Form → List Char → List Char
  | separator, source | block _ _ _ _, source => source
  | bare, source => withoutEscapes endsWord source
  | quoted quote _, source => withoutEscapes (· = quote) source

/-- A source with the delimiters of its form. -/
def written (form : Form) (source : List Char) : List Char :=
  form.opening ++ source ++ form.closing

@[simp] theorem written_separator (source : List Char) : separator.written source = source := by
  simp [written, opening, closing]

@[simp] theorem written_bare (source : List Char) : bare.written source = source := by
  simp [written, opening, closing]

@[simp] theorem written_quoted (quote : Char) (closed : Bool) (source : List Char) :
    (quoted quote closed).written source =
      quote :: (source ++ if closed then [quote] else []) := rfl

@[simp] theorem written_block (letters source : List Char) (opener closer : Char) (closed : Bool) :
    (block letters opener closer closed).written source =
      '%' :: (letters ++ opener :: (source ++ if closed then [closer] else [])) := by
  simp [written, opening, closing]

/-- The token of a source whose form starts at byte `position`. -/
def token (form : Form) (position : Nat) (source : List Char) : Token :=
  let start := position + byteLength form.opening
  ⟨form.kind, String.ofList (form.content source), start, start + byteLength source⟩

/-- The token together with the place behind it. -/
def lexeme (form : Form) (position : Nat) (source rest : List Char) : Lexeme :=
  ⟨form.token position source, position + byteLength (form.written source), rest⟩

/-- The letters that may stand before a block: in strict mode, none or those of an expansion. -/
def Allowed (mode : Mode) (letters : List Char) : Prop :=
  (∀ c ∈ letters, c.isAlpha = true) ∧
    (mode = .strict → letters = [] ∨ (Expansion.ofName? letters).isSome)

theorem allowed_lenient {letters : List Char} (h : ∀ c ∈ letters, c.isAlpha = true) :
    Allowed .lenient letters := ⟨h, by simp⟩

/-- **`form.Spells mode source rest`** — a source that stands in this form before `rest` is read as
such. -/
inductive Spells (mode : Mode) : Form → List Char → List Char → Prop
  | separator {c : Char} {rest : List Char} (hc : c = ';' ∨ c = '\n') :
      Spells mode .separator [c] rest
  | bare {c : Char} {source rest : List Char} (hc : endsWord c = false) (hcomment : c ≠ '#')
      (hquote : isQuote c = false) (hblock : c = '%' → blockHead? source = none)
      (hspan : wordSpan (c :: source) = (c :: source, [])) (hrest : CanFollow (c :: source) rest) :
      Spells mode .bare (c :: source) rest
  | quoted {quote : Char} {source rest : List Char} (hquote : isQuote quote = true)
      (hspan : ∀ rest, quotedSpan quote (source ++ quote :: rest) = (source, some rest)) :
      Spells mode (.quoted quote true) source rest
  | quotedOpen {quote : Char} {source : List Char} (hmode : mode = .lenient)
      (hquote : isQuote quote = true) (hspan : quotedSpan quote source = (source, none)) :
      Spells mode (.quoted quote false) source []
  | block {letters source rest : List Char} {opener closer : Char} (hletters : Allowed mode letters)
      (hcloser : closerOf? opener = some closer)
      (hspan : ∀ rest, blockSpan opener closer 0 (source ++ closer :: rest) = (source, some rest)) :
      Spells mode (.block letters opener closer true) source rest
  | blockOpen {letters source : List Char} {opener closer : Char} (hmode : mode = .lenient)
      (hletters : Allowed mode letters) (hcloser : closerOf? opener = some closer)
      (hspan : blockSpan opener closer 0 source = (source, none)) :
      Spells mode (.block letters opener closer false) source []

variable {mode : Mode} {form : Form} {source rest : List Char}

theorem Spells.opened_ne_nil (h : form.Spells mode source rest) : form.opening ++ source ≠ [] := by
  cases h <;> simp [opening]

theorem Spells.written_ne_nil (h : form.Spells mode source rest) : form.written source ≠ [] :=
  List.append_ne_nil_of_left_ne_nil h.opened_ne_nil _

/-- Words begin neither with a character that ends them nor with the sign of a comment. -/
theorem Spells.start (h : form.Spells mode source rest) (hform : form ≠ .separator) {c : Char}
    {after : List Char} (hc : form.written source ++ rest = c :: after) :
    endsWord c = false ∧ c ≠ '#' := by
  have hhead : (form.written source).head? = some c := by
    cases hw : form.written source with
    | nil => exact absurd hw h.written_ne_nil
    | cons d more =>
      rw [hw] at hc
      exact congrArg some (List.cons.inj hc).1
  cases h with
  | separator => exact absurd rfl hform
  | bare hd hcomment =>
    cases hhead
    exact ⟨hd, hcomment⟩
  | quoted hquote | quotedOpen _ hquote =>
    cases hhead
    rcases isQuote_iff.mp hquote with rfl | rfl <;> decide
  | block | blockOpen =>
    cases hhead
    decide

/-- In strict mode less is allowed. -/
theorem Spells.lenient (h : form.Spells .strict source rest) :
    form.Spells .lenient source rest := by
  cases h with
  | separator hc => exact .separator hc
  | bare hc hcomment hquote hblock hspan hrest => exact .bare hc hcomment hquote hblock hspan hrest
  | quoted hquote hspan => exact .quoted hquote hspan
  | quotedOpen hmode => cases hmode
  | block hletters hcloser hspan => exact .block (allowed_lenient hletters.1) hcloser hspan
  | blockOpen hmode => cases hmode

/-- A token is read alike if the line ends earlier behind it. -/
theorem Spells.of_append {more : List Char} (h : form.Spells mode source (rest ++ more)) :
    form.Spells mode source rest := by
  generalize hwhole : rest ++ more = whole at h
  cases h with
  | separator hc => exact .separator hc
  | bare hc hcomment hquote hblock hspan hrest =>
    subst hwhole
    exact .bare hc hcomment hquote hblock hspan hrest.of_append
  | quoted hquote hspan => exact .quoted hquote hspan
  | quotedOpen hmode hquote hspan =>
    rw [(List.append_eq_nil_iff.mp hwhole).1]
    exact .quotedOpen hmode hquote hspan
  | block hletters hcloser hspan => exact .block hletters hcloser hspan
  | blockOpen hmode hletters hcloser hspan =>
    rw [(List.append_eq_nil_iff.mp hwhole).1]
    exact .blockOpen hmode hletters hcloser hspan

end Form

/-! ## Gaps and pieces -/

/-- **`Gap after gap`** — `gap` is made of blanks and at most one comment, which reaches to the end
of its line; `after` is what follows the gap. -/
inductive Gap (after : List Char) : List Char → Prop
  | nil : Gap after []
  | blank {c : Char} {gap : List Char} (hc : isBlank c = true) (h : Gap after gap) :
      Gap after (c :: gap)
  | comment {remark : List Char} (hremark : '\n' ∉ remark)
      (hafter : ∀ c ∈ after.head?, c = '\n') : Gap after ('#' :: remark)

/-- Of what follows a gap only the first character matters, and nothing has to follow. -/
theorem Gap.mono {after after' gap : List Char} (h : Gap after gap)
    (hhead : ∀ c ∈ after'.head?, c ∈ after.head?) : Gap after' gap := by
  induction h with
  | nil => exact .nil
  | blank hc _ ih => exact .blank hc ih
  | comment hremark hafter => exact .comment hremark fun c hc => hafter c (hhead c hc)

theorem gap_append_iff {after more gap : List Char} (hafter : after ≠ []) :
    Gap (after ++ more) gap ↔ Gap after gap := by
  obtain ⟨c, after, rfl⟩ := List.exists_cons_of_ne_nil hafter
  exact ⟨fun h => h.mono fun _ => id, fun h => h.mono fun _ => id⟩

/-- A token as written, with the gap before it. -/
structure Piece where
  gap : List Char
  form : Form
  source : List Char
  deriving DecidableEq, Repr

namespace Piece

/-- All that a piece takes of its line. -/
def text (p : Piece) : List Char := p.gap ++ p.form.written p.source

/-- The token of a piece that starts at byte `position`. -/
def token (position : Nat) (p : Piece) : Token :=
  p.form.token (position + byteLength p.gap) p.source

end Piece

/-- The text of which pieces are the pieces. -/
def written (pieces : List Piece) : List Char := pieces.flatMap Piece.text

/-- The tokens of pieces the first of which starts at byte `position`. -/
def tokensOf (position : Nat) : List Piece → List Token
  | [] => []
  | p :: pieces => p.token position :: tokensOf (position + byteLength p.text) pieces

@[simp] theorem written_nil : written [] = [] := rfl

@[simp] theorem written_cons (p : Piece) (pieces : List Piece) :
    written (p :: pieces) = p.text ++ written pieces := List.flatMap_cons

@[simp] theorem written_append (pieces pieces' : List Piece) :
    written (pieces ++ pieces') = written pieces ++ written pieces' := List.flatMap_append

theorem tokensOf_append (position : Nat) (pieces pieces' : List Piece) :
    tokensOf position (pieces ++ pieces') =
      tokensOf position pieces ++ tokensOf (position + byteLength (written pieces)) pieces' := by
  induction pieces generalizing position with
  | nil => rfl
  | cons p pieces ih =>
    rw [List.cons_append, tokensOf, ih, tokensOf, written_cons, byteLength_append, Nat.add_assoc]
    rfl

/-- **`Reads mode pieces rest`** — the pieces are those of a line that goes on with `rest` behind
them. -/
inductive Reads (mode : Mode) : List Piece → List Char → Prop
  | nil {rest : List Char} : Reads mode [] rest
  | cons {p : Piece} {pieces : List Piece} {rest : List Char}
      (hgap : Gap (p.form.written p.source) p.gap)
      (hform : p.form.Spells mode p.source (written pieces ++ rest))
      (h : Reads mode pieces rest) : Reads mode (p :: pieces) rest

namespace Reads

variable {mode : Mode} {pieces pieces' : List Piece} {rest : List Char}

theorem append (h : Reads mode pieces (written pieces' ++ rest)) (h' : Reads mode pieces' rest) :
    Reads mode (pieces ++ pieces') rest := by
  induction pieces with
  | nil => exact h'
  | cons p pieces ih =>
    cases h with
    | cons hgap hform h =>
      rw [← List.append_assoc, ← written_append] at hform
      exact .cons hgap hform (ih h)

theorem lenient (h : Reads .strict pieces rest) : Reads .lenient pieces rest := by
  induction h with
  | nil => exact .nil
  | cons hgap hform _ ih => exact .cons hgap hform.lenient ih

/-- The pieces are the same if the line ends earlier behind them. -/
theorem of_append {more : List Char} (h : Reads mode pieces (rest ++ more)) :
    Reads mode pieces rest := by
  induction pieces with
  | nil => exact .nil
  | cons p pieces ih =>
    cases h with
    | cons hgap hform h =>
      rw [← List.append_assoc] at hform
      exact .cons hgap hform.of_append (ih h)

end Reads

end ModalEdit.CommandLine
