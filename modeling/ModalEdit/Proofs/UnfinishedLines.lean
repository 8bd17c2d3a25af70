import Mathlib.Data.List.Basic
import ModalEdit.Proofs.LineReading

/-!
# Unfinished command lines

Strict and lenient mode read a line alike up to the first thing that strict mode refuses. If that is
a string or block without end, the line before it can be read, and lenient mode finds its tokens and
one more, which reaches to the end of the line (`modes_agree`). Lenient mode refuses nothing.

A line that is cut off has its tokens, all but the last one, in common with the whole line
(`finished_words_stay`): what ended each of them comes before the cut.
-/

namespace ModalEdit.CommandLine

open ModalEdit.Text (byteLength byteLength_append)

/-- **`Unfinished fault c after`** — before `after`, the character `c` opens a string or block that
has no end, which is the fault. -/
inductive Unfinished : ParseFault → Char → List Char → Prop
  | string {quote : Char} {after : List Char} (hquote : isQuote quote = true)
      (hopen : (quotedSpan quote after).2 = none) : Unfinished .unterminatedString quote after
  | block {after : List Char} {head : BlockHead} (hhead : blockHead? after = some head)
      (hopen : (blockSpan head.opener head.closer 0 head.body).2 = none) :
      Unfinished .unterminatedBlock '%' after

/-- What strict mode refuses is an expansion that it does not know, or begins with the character
that opens a construct without end. -/
theorem Faulty.cases_unfinished {rest : List Char} {fault : ParseFault} (h : Faulty rest fault) :
    (∃ name, fault = .unknownExpansion name) ∨
      ∃ c after, rest = c :: after ∧ Unfinished fault c after := by
  cases h with
  | @string quote body hquote hspan =>
    exact .inr ⟨quote, body, rfl, .string hquote (by rw [hspan])⟩
  | @block letters body opener closer hletters hcloser hspan =>
    refine .inr ⟨'%', letters ++ opener :: body, rfl, ?_⟩
    exact .block (blockHead?_append hletters.1 hcloser) (by rw [hspan])
  | unknown => exact .inl ⟨_, rfl⟩

/-- In lenient mode a construct without end is a form that reaches to the end of the line. -/
theorem Unfinished.exists_spells {fault : ParseFault} {c : Char} {after : List Char}
    (h : Unfinished fault c after) :
    ∃ (form : Form) (source : List Char), form.written source = c :: after ∧ form.closing = [] ∧
      form.Spells .lenient source [] := by
  cases h with
  | string hquote hopen =>
    refine ⟨.quoted c false, after, ?_, rfl, .quotedOpen rfl hquote (quotedSpan_open hopen)⟩
    simp
  | @block _ head hhead hopen =>
    obtain ⟨hletters, hcloser, rfl⟩ := blockHead?_eq_some hhead
    refine ⟨.block head.letters head.opener head.closer false, head.body, ?_, rfl,
      .blockOpen rfl (Form.allowed_lenient hletters) hcloser (blockSpan_open hopen)⟩
    simp

/-- The token of a form without closing delimiter ends where the form does. -/
theorem Form.token_stop {form : Form} (hclosing : form.closing = []) (position : Nat)
    (source : List Char) :
    (form.token position source).stop = position + byteLength (form.written source) := by
  simp [Form.token, Form.written, hclosing, Nat.add_assoc]

/-- Lenient mode behind the pieces that strict mode reads. -/
theorem Unfinished.scan_lenient {fault : ParseFault} {c : Char} {gap after : List Char}
    {pieces : List Piece} (h : Unfinished fault c after)
    (hreads : Reads .strict pieces (gap ++ c :: after)) (hgap : Gap (c :: after) gap) :
    ∃ last : Token, scan .lenient 0 (written pieces ++ (gap ++ c :: after)) =
        .ok (tokensOf 0 pieces ++ [last]) ∧
      last.stop = byteLength (written pieces ++ (gap ++ c :: after)) := by
  obtain ⟨form, source, htext, hclosing, hform⟩ := h.exists_spells
  rw [← htext] at hreads hgap ⊢
  have hlast : Reads .lenient (pieces ++ [⟨gap, form, source⟩]) [] := by
    refine Reads.append ?_ (.cons hgap hform .nil)
    simpa [Piece.text] using hreads.lenient
  have hwritten : written (pieces ++ [⟨gap, form, source⟩]) ++ [] =
      written pieces ++ (gap ++ form.written source) := by
    simp [Piece.text]
  refine ⟨Piece.token (byteLength (written pieces)) ⟨gap, form, source⟩, ?_, ?_⟩
  · rw [← hwritten, scan_of_reads hlast .nil, tokensOf_append, Nat.zero_add]
    rfl
  · rw [Piece.token, Form.token_stop hclosing]
    simp [Nat.add_assoc]

/-- **The modes agree**. Lenient mode refuses no line. A line that strict mode reads has the same
tokens in both; and if strict mode refuses a line since a construct has no end, then the construct
begins at the place of the error, the line before it can be read, and lenient mode finds its tokens
and one more, which reaches to the end of the line. -/
theorem modes_agree (line : String) :
    scan .lenient 0 line.toList = .ok (tokenizePartial line) ∧
    (∀ tokens, tokenize line = .ok tokens → tokenizePartial line = tokens) ∧
    ∀ fault position, tokenize line = .error ⟨fault, position⟩ →
      fault = .unterminatedString ∨ fault = .unterminatedBlock →
      ∃ before c after tokens last, line.toList = before ++ c :: after ∧
        byteLength before = position ∧ Unfinished fault c after ∧
        tokenize (String.ofList before) = .ok tokens ∧
        tokenizePartial line = tokens ++ [last] ∧ last.stop = byteLength line.toList := by
  refine ⟨scan_lenient line,
    fun tokens h => tokenizePartial_of_scan (scan_lenient_of_strict h), ?_⟩
  intro fault position h hfault
  obtain ⟨-, pieces, gap, rest, hline, hreads, hgap, hfaulty, hposition⟩ := scan_eq_error_iff.mp h
  obtain ⟨name, hname⟩ | ⟨c, after, rfl, hunfinished⟩ := hfaulty.cases_unfinished
  · rcases hfault with rfl | rfl <;> cases hname
  obtain ⟨last, hscan, hstop⟩ := hunfinished.scan_lenient hreads hgap
  rw [← hline] at hscan hstop
  refine ⟨written pieces ++ gap, c, after, tokensOf 0 pieces, last, ?_, ?_, hunfinished, ?_,
    tokenizePartial_of_scan hscan, hstop⟩
  · rw [hline, List.append_assoc]
  · exact (hposition.trans (Nat.zero_add _)).symm
  · rw [tokenize, String.toList_ofList]
    exact scan_of_reads hreads.of_append (hgap.mono (by simp))

/-- An expansion without end, behind a string with an escaped quote. -/
theorem modes_agree_open_expansion :
    let line := "echo \x27it\\\x27s\x27 %sh\x7b ls \x7ba\x7d"
    tokenize line = .error ⟨.unterminatedBlock, 13⟩ ∧
      ∃ before c after tokens last, line.toList = before ++ c :: after ∧ byteLength before = 13 ∧
        Unfinished .unterminatedBlock c after ∧ tokenize (String.ofList before) = .ok tokens ∧
        tokenizePartial line = tokens ++ [last] ∧ last.stop = byteLength line.toList := by
  intro line
  have herror : tokenize line = .error ⟨.unterminatedBlock, 13⟩ := by decide +kernel
  exact ⟨herror, (modes_agree line).2.2 _ _ herror (.inr rfl)⟩

/-! ## Lines that are cut off -/

theorem CanFollow.append {source rest : List Char} (h : CanFollow source rest) (hrest : rest ≠ [])
    (more : List Char) : CanFollow source (rest ++ more) := by
  obtain rfl | ⟨hlast, c, after, rfl, hc⟩ := h
  · exact absurd rfl hrest
  · exact .inr ⟨hlast, c, after ++ more, rfl, hc⟩

/-- What ended a token stands in the line already: only behind the last one may the line go on
differently. -/
theorem Form.Spells.append {mode : Mode} {form : Form} {source rest : List Char}
    (h : form.Spells mode source rest) (hrest : rest ≠ []) (more : List Char) :
    form.Spells mode source (rest ++ more) := by
  cases h with
  | separator hc => exact .separator hc
  | bare hc hcomment hquote hblock hspan hfollow =>
    exact .bare hc hcomment hquote hblock hspan (hfollow.append hrest more)
  | quoted hquote hspan => exact .quoted hquote hspan
  | quotedOpen => exact absurd rfl hrest
  | block hletters hcloser hspan => exact .block hletters hcloser hspan
  | blockOpen => exact absurd rfl hrest

namespace Reads

variable {mode : Mode} {pieces pieces' : List Piece} {rest : List Char}

/-- Pieces with something behind them stay pieces if the line goes on. -/
theorem append_rest (h : Reads mode pieces rest) (hrest : rest ≠ []) (more : List Char) :
    Reads mode pieces (rest ++ more) := by
  induction h with
  | nil => exact .nil
  | @cons p pieces rest hgap hform _ ih =>
    have hbehind : written pieces ++ rest ≠ [] := List.append_ne_nil_of_right_ne_nil _ hrest
    have hform' := hform.append hbehind more
    rw [List.append_assoc] at hform'
    exact .cons hgap hform' (ih hrest)

/-- The first pieces of a line stand before the others. -/
theorem split (h : Reads mode (pieces ++ pieces') rest) :
    Reads mode pieces (written pieces' ++ rest) ∧ Reads mode pieces' rest := by
  induction pieces with
  | nil => exact ⟨.nil, h⟩
  | cons p pieces ih =>
    rw [List.cons_append] at h
    cases h with
    | cons hgap hform h =>
      rw [written_append, List.append_assoc] at hform
      exact ⟨.cons hgap hform (ih h).1, (ih h).2⟩

/-- All pieces of a line but its last one stay pieces if the line goes on. -/
theorem init_append {last : Piece} (h : Reads mode (pieces ++ [last]) rest) (more : List Char) :
    Reads mode pieces (written [last] ++ rest ++ more) := by
  obtain ⟨hinit, hlast⟩ := h.split
  refine hinit.append_rest ?_ more
  cases hlast with
  | cons _ hform _ => simp [Piece.text, hform.written_ne_nil]

end Reads

/-- All tokens of an unfinished line but the last one stay if the line goes on, finished or not. -/
theorem dropLast_tokens_of_append {before more : List Char} {tokens tokens' : List Token}
    (h : scan .lenient 0 before = .ok tokens) (h' : scan .lenient 0 (before ++ more) = .ok tokens') :
    tokens.dropLast <+: tokens' := by
  obtain ⟨pieces, gap, rfl, hreads, -, rfl⟩ := scan_eq_ok_iff.mp h
  obtain rfl | ⟨init, last, rfl⟩ := pieces.eq_nil_or_concat'
  · exact List.nil_prefix
  have htokens : (tokensOf 0 (init ++ [last])).dropLast = tokensOf 0 init := by
    rw [tokensOf_append]
    exact List.dropLast_concat
  have hline : written (init ++ [last]) ++ gap ++ more =
      written init ++ (written [last] ++ gap ++ more) := by
    simp
  rw [hline, scan_reads (hreads.init_append more)] at h'
  rw [htokens]
  cases hothers : scan .lenient (0 + byteLength (written init)) (written [last] ++ gap ++ more) with
  | error e =>
    rw [hothers] at h'
    cases h'
  | ok others =>
    rw [hothers] at h'
    exact ⟨others, Except.ok.inj h'⟩

/-- **Completion sees the words that are run**. Wherever a line that can be read is cut off, all
tokens of what comes before the cut, except for the last one, are the first tokens of the line. -/
theorem finished_words_stay {line before : String} {tokens : List Token}
    (h : tokenize line = .ok tokens) (hbefore : before.toList <+: line.toList) :
    (tokenizePartial before).dropLast <+: tokens := by
  obtain ⟨more, hmore⟩ := hbefore
  have hline : scan .lenient 0 (before.toList ++ more) = .ok tokens := by
    rw [hmore]
    exact scan_lenient_of_strict h
  exact dropLast_tokens_of_append (scan_lenient before) hline

/-- The cut lies between the brackets of a block, behind an escaped blank and an escaped quote. -/
theorem finished_words_stay_in_block :
    let line := "a\\ b \x27c\\\x27d\x27 %opt[e[f]] g"
    let before := "a\\ b \x27c\\\x27d\x27 %opt[e["
    let words : List Token := [⟨.raw, "a b", 0, 4⟩, ⟨.raw, "c\x27d", 6, 10⟩]
    let tokens := words ++ [⟨.expand .option, "e[f]", 17, 21⟩, ⟨.raw, "g", 23, 24⟩]
    tokenize line = .ok tokens ∧ before.toList <+: line.toList ∧
      tokenizePartial before = words ++ [⟨.expand .option, "e[", 17, 19⟩] ∧
      (tokenizePartial before).dropLast <+: tokens := by
  intro line before words tokens
  have hline : tokenize line = .ok tokens := by decide +kernel
  have hbefore : before.toList <+: line.toList := by decide
  have hcut : tokenizePartial before = words ++ [⟨.expand .option, "e[", 17, 19⟩] := by
    decide +kernel
  exact ⟨hline, hbefore, hcut, finished_words_stay hline hbefore⟩

end ModalEdit.CommandLine
