import ModalEdit.CommandLine.Invocation
import ModalEdit.Proofs.LineReading

/-!
# Command lines below one another

A command line that can be read and does not end in a backslash is read alike if another line
follows: the tokens of both lines come one after the other with the end of the first line between
them, and an error in the second line is the error of that line, further on
(`tokenize_append_line`). Commands never reach over the end of a line.

The pieces of the first line stay its pieces (`Reads.append_newline`), and where a line starts is
nothing but an amount by which its tokens and errors are shifted (`scan_shift`).
-/

namespace ModalEdit

open Text (byteLength byteLength_append)

/-! ## Shifted results -/

/-- The same error of a line that starts `n` bytes later. -/
def ParseError.shift (n : Nat) (e : ParseError) : ParseError :=
  { e with position := e.position + n }

namespace Invocation

/-- The same command of a line that starts `n` bytes later. -/
def shift (n : Nat) (i : Invocation) : Invocation := ⟨i.name.shift n, i.args.map (Token.shift n)⟩

theorem splitCommands_shift (n : Nat) (tokens : List Token) :
    splitCommands (tokens.map (Token.shift n)) =
      (splitCommands tokens).map (List.map (Token.shift n)) := by
  induction tokens with
  | nil => rfl
  | cons t tokens ih =>
    obtain ⟨command, commands, hsplit⟩ := List.exists_cons_of_ne_nil (splitCommands_ne_nil tokens)
    have hseparator : (t.shift n).isSeparator = t.isSeparator := rfl
    rw [List.map_cons, splitCommands, ih, splitCommands, hsplit, hseparator]
    split <;> rfl

theorem ofWords?_shift (n : Nat) (words : List Token) :
    ofWords? (words.map (Token.shift n)) = (ofWords? words).map (shift n) := by
  cases words <;> rfl

theorem ofTokens_shift (n : Nat) (tokens : List Token) :
    ofTokens (tokens.map (Token.shift n)) = (ofTokens tokens).map (shift n) := by
  rw [ofTokens, splitCommands_shift, List.filterMap_map, ofTokens, List.map_filterMap]
  congr 1
  funext words
  exact ofWords?_shift n words

end Invocation

namespace CommandLine

theorem Form.token_shift (form : Form) (position n : Nat) (source : List Char) :
    form.token (position + n) source = (form.token position source).shift n := by
  simp only [token, Token.shift, Token.mk.injEq, true_and]
  omega

theorem tokensOf_shift (position n : Nat) (pieces : List Piece) :
    tokensOf (position + n) pieces = (tokensOf position pieces).map (Token.shift n) := by
  induction pieces generalizing position with
  | nil => rfl
  | cons p pieces ih =>
    rw [tokensOf, tokensOf, List.map_cons, Nat.add_right_comm, ih, Piece.token, Nat.add_right_comm,
      Form.token_shift]
    rfl

/-- **A result with all its positions shifted**. -/
def shiftResult (n : Nat) : Except ParseError (List Token) → Except ParseError (List Token)
  | .ok tokens => .ok (tokens.map (Token.shift n))
  | .error e => .error (e.shift n)

/-- A line that starts later has the same tokens or the same error, further on. -/
theorem scan_shift (mode : Mode) (position n : Nat) (text : List Char) :
    scan mode (position + n) text = shiftResult n (scan mode position text) := by
  cases h : scan mode position text with
  | ok tokens =>
    obtain ⟨pieces, gap, rfl, hreads, hgap, rfl⟩ := scan_eq_ok_iff.mp h
    rw [scan_of_reads hreads hgap, tokensOf_shift]
    rfl
  | error e =>
    obtain ⟨rfl, pieces, gap, rest, rfl, hreads, hgap, hfault, hposition⟩ := scan_eq_error_iff.mp h
    rw [scan_of_faulty hreads hgap hfault, shiftResult, ParseError.shift, hposition,
      Nat.add_right_comm]

/-! ## The end of a line -/

section Newline

variable {source rest : List Char} {form : Form} {pieces : List Piece}

theorem Form.Spells.append_newline (h : form.Spells .strict source rest)
    (hlast : (form.written source ++ rest).getLast? ≠ some '\\') (more : List Char) :
    form.Spells .strict source (rest ++ '\n' :: more) := by
  cases h with
  | separator hc => exact .separator hc
  | @bare c source _ hc hcomment hquote hblock hspan hrest =>
    refine .bare hc hcomment hquote hblock hspan ?_
    obtain rfl | ⟨hsource, d, after, rfl, hd⟩ := hrest
    · refine .inr ⟨?_, '\n', more, rfl, rfl⟩
      simpa using hlast
    · exact .inr ⟨hsource, d, after ++ '\n' :: more, rfl, hd⟩
  | quoted hquote hspan => exact .quoted hquote hspan
  | quotedOpen hmode => cases hmode
  | block hletters hcloser hspan => exact .block hletters hcloser hspan
  | blockOpen hmode => cases hmode

/-- Pieces of a finished line without a backslash at its end stay pieces before another line. -/
theorem Reads.append_newline (h : Reads .strict pieces rest)
    (hlast : (written pieces ++ rest).getLast? ≠ some '\\') (more : List Char) :
    Reads .strict pieces (rest ++ '\n' :: more) := by
  induction h with
  | nil => exact .nil
  | @cons p pieces rest hgap hform _ ih =>
    have htail : (p.form.written p.source ++ (written pieces ++ rest)).getLast? ≠ some '\\' := by
      refine getLast?_of_append_ne (a := p.gap) ?_
      simpa [Piece.text, List.append_assoc] using hlast
    have hform' := hform.append_newline htail more
    rw [List.append_assoc] at hform'
    exact .cons hgap hform' (ih (getLast?_of_append_ne htail))

/-- Any gap may stand at the end of a line. -/
theorem Gap.newline {after gap : List Char} (h : Gap after gap) (more : List Char) :
    Gap ('\n' :: more) gap := by
  induction h with
  | nil => exact .nil
  | blank hc _ ih => exact .blank hc ih
  | comment hremark => exact .comment hremark fun c hc => (Option.some.inj hc).symm

/-- The end of a line, as a piece behind the gap before it. -/
def newlinePiece (gap : List Char) : Piece := ⟨gap, .separator, ['\n']⟩

/-- The separator at byte `position` that ends a line. -/
def newlineToken (position : Nat) : Token := ⟨.separator, "\n", position, position + 1⟩

/-- A finished line keeps its pieces before another line, and its end is one more piece. -/
theorem reads_newlinePiece {gap : List Char} (h : Reads .strict pieces gap) (hgap : Gap [] gap)
    (hlast : (written pieces ++ gap).getLast? ≠ some '\\') (more : List Char) :
    Reads .strict (pieces ++ [newlinePiece gap]) more := by
  refine Reads.append ?_ (.cons (hgap.newline []) (.separator (.inr rfl)) .nil)
  show Reads .strict pieces (gap ++ ['\n'] ++ [] ++ more)
  simpa using h.append_newline hlast more

theorem tokensOf_newlinePiece (gap : List Char) :
    tokensOf 0 (pieces ++ [newlinePiece gap]) =
      tokensOf 0 pieces ++ [newlineToken (byteLength (written pieces ++ gap))] := by
  rw [tokensOf_append, Nat.zero_add, byteLength_append]
  rfl

end Newline

/-- The results of a finished line followed by another line, in either mode. -/
theorem scan_append_newline {a : List Char} {tokens : List Token}
    (ha : scan .strict 0 a = .ok tokens) (hlast : a.getLast? ≠ some '\\') {mode : Mode}
    (b : List Char) :
    scan mode 0 (a ++ '\n' :: b) =
      (shiftResult (byteLength a + 1) (scan mode 0 b)).map
        (tokens ++ newlineToken (byteLength a) :: ·) := by
  obtain ⟨pieces, gap, rfl, hreads, hgap, rfl⟩ := scan_eq_ok_iff.mp ha
  have hpieces : Reads mode (pieces ++ [newlinePiece gap]) b := by
    have hstrict := reads_newlinePiece hreads hgap hlast b
    cases mode with
    | strict => exact hstrict
    | lenient => exact hstrict.lenient
  have htext : written pieces ++ gap ++ '\n' :: b =
      written (pieces ++ [newlinePiece gap]) ++ b := by
    simp [newlinePiece, Piece.text]
  have hlength : byteLength (written (pieces ++ [newlinePiece gap])) =
      byteLength (written pieces ++ gap) + 1 := by
    have hnewline : '\n'.utf8Size = 1 := rfl
    simp [newlinePiece, Piece.text, hnewline, Nat.add_assoc]
  rw [htext, scan_reads hpieces, hlength, scan_shift, tokensOf_newlinePiece]
  simp

section Lines

variable {a b : String} {tokens : List Token}

/-- **Lines are read one after the other**. If `a` can be read and does not end in a backslash, then
below `a` a line `b` has its own tokens or its own error, shifted by the length of `a` and the end
of its line; the tokens of `a` and a separator come before them. The same holds of the tokens of an
unfinished `b`, and of commands. -/
theorem tokenize_append_line (ha : tokenize a = .ok tokens)
    (hlast : a.toList.getLast? ≠ some '\\') :
    (tokenize (a ++ "\n" ++ b) =
      match tokenize b with
      | .ok more => .ok (tokens ++ newlineToken (byteLength a.toList) ::
          more.map (Token.shift (byteLength a.toList + 1)))
      | .error e => .error (e.shift (byteLength a.toList + 1))) ∧
    tokenizePartial (a ++ "\n" ++ b) =
      tokenizePartial a ++ newlineToken (byteLength a.toList) ::
        (tokenizePartial b).map (Token.shift (byteLength a.toList + 1)) ∧
    ∃ invocations, parseInvocations a = .ok invocations ∧
      parseInvocations (a ++ "\n" ++ b) =
        match parseInvocations b with
        | .ok more => .ok (invocations ++ more.map (Invocation.shift (byteLength a.toList + 1)))
        | .error e => .error (e.shift (byteLength a.toList + 1)) := by
  have htext : (a ++ "\n" ++ b).toList = a.toList ++ '\n' :: b.toList := by simp
  have hstrict : tokenize (a ++ "\n" ++ b) =
      (shiftResult (byteLength a.toList + 1) (tokenize b)).map
        (tokens ++ newlineToken (byteLength a.toList) :: ·) := by
    rw [tokenize, htext]
    exact scan_append_newline ha hlast b.toList
  refine ⟨?_, ?_, Invocation.ofTokens tokens, ?_, ?_⟩
  · rw [hstrict]
    cases tokenize b <;> rfl
  · rw [tokenizePartial_of_scan (scan_lenient_of_strict ha)]
    refine tokenizePartial_of_scan ?_
    rw [htext, scan_append_newline ha hlast, scan_lenient]
    rfl
  · rw [parseInvocations, ha]
    rfl
  · rw [parseInvocations, hstrict, parseInvocations]
    cases tokenize b with
    | error e => rfl
    | ok more =>
      have hseparator : (newlineToken (byteLength a.toList)).isSeparator = true := rfl
      have hcommands := Invocation.ofTokens_append_separator hseparator tokens
        (more.map (Token.shift (byteLength a.toList + 1)))
      rw [Invocation.ofTokens_shift] at hcommands
      exact congrArg Except.ok hcommands

/-- Below a line that ends in a comment, a line that opens a block without closing it. -/
theorem tokenize_append_line_open_block :
    let a := "echo %abc # it\x27s"
    let b := "eval %\x7b nop"
    let first : List Token :=
      [⟨.raw, "echo", 0, 4⟩, ⟨.raw, "%abc", 5, 9⟩, ⟨.separator, "\n", 16, 17⟩]
    (∃ tokens, tokenize a = .ok tokens) ∧ a.toList.getLast? ≠ some '\\' ∧
      tokenize (a ++ "\n" ++ b) = .error ⟨.unterminatedBlock, 22⟩ ∧
      tokenizePartial (a ++ "\n" ++ b) =
        first ++ [⟨.raw, "eval", 17, 21⟩, ⟨.raw, " nop", 24, 28⟩] ∧
      parseInvocations (a ++ "\n" ++ b) = .error ⟨.unterminatedBlock, 22⟩ := by
  intro a b first
  have ha : tokenize a = .ok [⟨.raw, "echo", 0, 4⟩, ⟨.raw, "%abc", 5, 9⟩] := by decide +kernel
  have hlast : a.toList.getLast? ≠ some '\\' := by decide
  have hstrict : tokenize b = .error ⟨.unterminatedBlock, 5⟩ := by decide +kernel
  obtain ⟨htokens, hpartial, invocations, -, hinvocations⟩ :=
    tokenize_append_line (b := b) ha hlast
  refine ⟨⟨_, ha⟩, hlast, ?_, ?_, ?_⟩
  · rw [htokens, hstrict]
    decide +kernel
  · rw [hpartial]
    decide +kernel
  · have hshift : ParseError.shift (byteLength a.toList + 1) ⟨.unterminatedBlock, 5⟩ =
        ⟨.unterminatedBlock, 22⟩ := by decide +kernel
    rw [hinvocations, parseInvocations, hstrict]
    exact congrArg Except.error hshift

end Lines

end CommandLine

end ModalEdit
