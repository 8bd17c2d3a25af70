import ModalEdit.Proofs.LineReading
import ModalEdit.Proofs.Positions

/-!
# The spans of tokens

Every token knows which bytes of its line it came from. In both modes the spans follow one another
on character boundaries; what a token says is the text of its span without the backslashes that
escape something in it; and between two spans there is nothing but the end of one word, blanks and
comments, and the beginning of the next (`spans_are_faithful`). The spans and what lies between them
make up the line again (`Faithful.flatten_cuts`).
-/

namespace ModalEdit

namespace Text

/-! ## Character boundaries -/

/-- **`IsBoundary text n`** — byte `n` does not lie inside a character of the text, nor behind its
end. -/
def IsBoundary (text : List Char) (n : Nat) : Prop := floorBoundary text n = n

theorem isBoundary_byteLength (a b : List Char) : IsBoundary (a ++ b) (byteLength a) :=
  floorBoundary_append a b

theorem IsBoundary.exists_cut {text : List Char} {n : Nat} (h : IsBoundary text n) :
    ∃ a b, text = a ++ b ∧ byteLength a = n :=
  ⟨takeBytes text n, dropBytes text n, (takeBytes_append_dropBytes text n).symm,
    (byteLength_takeBytes text n).trans h⟩

/-- Cutting a text at two boundaries. -/
theorem slice_append_dropBytes {text : List Char} {start stop : Nat} (h : start ≤ stop)
    (hstart : IsBoundary text start) (hstop : IsBoundary text stop) :
    slice text start stop ++ dropBytes text stop = dropBytes text start := by
  obtain ⟨a, y, rfl, rfl⟩ := hstart.exists_cut
  obtain ⟨a', b, hab, rfl⟩ := hstop.exists_cut
  obtain ⟨z, hz, rfl, -⟩ | ⟨z, rfl, rfl⟩ := cut_cases hab
  · -- the cut at `stop` does not come first
    have := byteLength_pos hz
    rw [byteLength_append] at h
    omega
  · have hslice := slice_append a z b
    rw [← byteLength_append, List.append_assoc] at hslice
    rw [hslice, dropBytes_byteLength_append, dropBytes_zero, ← List.append_assoc,
      dropBytes_byteLength_append, dropBytes_zero]

end Text

namespace CommandLine

open Text

/-! ## Faithful spans -/

/-- **`form.Proper mode`** — the delimiters of a form are those that words can have: a quote, or a
`%` with a delimiter and letters before it if any. In strict mode no closing one is missing, and the
letters are those of an expansion. -/
def Form.Proper (mode : Mode) : Form → Prop
  | separator | bare => True
  | quoted quote closed => isQuote quote = true ∧ (mode = .strict → closed = true)
  | block letters opener closer closed =>
    Allowed mode letters ∧ closerOf? opener = some closer ∧ (mode = .strict → closed = true)

theorem Form.Spells.proper {mode : Mode} {form : Form} {source rest : List Char}
    (h : form.Spells mode source rest) : form.Proper mode := by
  cases h with
  | separator => trivial
  | bare => trivial
  | quoted hquote => exact ⟨hquote, fun _ => rfl⟩
  | quotedOpen hmode hquote => exact ⟨hquote, fun h => nomatch hmode.symm.trans h⟩
  | block hletters hcloser => exact ⟨hletters, hcloser, fun _ => rfl⟩
  | blockOpen hmode hletters hcloser =>
    exact ⟨hletters, hcloser, fun h => nomatch hmode.symm.trans h⟩

/-- **`Faithful mode line closing stop tokens`** — the tokens are those of the line behind byte
`stop`, where the span of a token has ended that `closing` ends as a word.

Up to the next span there come this `closing`, a gap and the opening of the next token; the content
of that token is what its form makes of its span. -/
inductive Faithful (mode : Mode) (line : List Char) : List Char → Nat → List Token → Prop
  | nil {closing gap : List Char} {stop : Nat} (hstop : stop ≤ byteLength line)
      (hbetween : slice line stop (byteLength line) = closing ++ gap) (hgap : Gap [] gap) :
      Faithful mode line closing stop []
  | cons {closing gap : List Char} {stop : Nat} {t : Token} {tokens : List Token} {form : Form}
      (hform : form.Proper mode) (hstart : stop ≤ t.start) (hspan : t.start ≤ t.stop)
      (hstop : t.stop ≤ byteLength line)
      (hboundary : IsBoundary line t.start ∧ IsBoundary line t.stop)
      (hbetween : slice line stop t.start = closing ++ gap ++ form.opening)
      (hgap : Gap (form.opening ++ slice line t.start t.stop) gap) (hkind : t.kind = form.kind)
      (hcontent : t.content = String.ofList (form.content (slice line t.start t.stop)))
      (h : Faithful mode line form.closing t.stop tokens) :
      Faithful mode line closing stop (t :: tokens)

/-- The texts of a line behind byte `stop`: between the spans and of the spans, in turn. -/
def cuts (line : List Char) (stop : Nat) : List Token → List (List Char)
  | [] => [slice line stop (byteLength line)]
  | t :: tokens => slice line stop t.start :: slice line t.start t.stop :: cuts line t.stop tokens

/-- No character is dropped, and none is used twice. -/
theorem Faithful.flatten_cuts {mode : Mode} {line closing : List Char} {stop : Nat}
    {tokens : List Token} (h : Faithful mode line closing stop tokens)
    (hstop : IsBoundary line stop) : (cuts line stop tokens).flatten = dropBytes line stop := by
  have hend : IsBoundary line (byteLength line) := by
    simpa using isBoundary_byteLength line []
  have hnothing : dropBytes line (byteLength line) = [] := by
    simpa [dropBytes_zero] using dropBytes_byteLength_append line []
  induction h with
  | nil hle =>
    have hcut := slice_append_dropBytes hle hstop hend
    rw [hnothing] at hcut
    exact hcut
  | cons hform hstart hle _ hboundary _ _ _ _ _ ih =>
    rw [cuts, List.flatten_cons, List.flatten_cons, ih hboundary.2,
      slice_append_dropBytes hle hboundary.1 hboundary.2,
      slice_append_dropBytes hstart hstop hboundary.1]

/-- The spans of pieces that follow a word which `closing` ends. -/
theorem faithful_of_reads {mode : Mode} {pieces : List Piece} {tail : List Char}
    (h : Reads mode pieces tail) (htail : Gap [] tail) (before closing : List Char) :
    Faithful mode (before ++ closing ++ (written pieces ++ tail)) closing (byteLength before)
      (tokensOf (byteLength (before ++ closing)) pieces) := by
  induction h generalizing before closing with
  | @nil tail =>
    refine .nil (by simp) ?_ htail
    have hslice := slice_append before (closing ++ tail) []
    simpa [Nat.add_assoc] using hslice
  | @cons p pieces tail hgap hform _ ih =>
    let opened := before ++ (closing ++ p.gap ++ p.form.opening)
    let spanned := opened ++ p.source
    let line := spanned ++ p.form.closing ++ (written pieces ++ tail)
    have hline : before ++ closing ++ (written (p :: pieces) ++ tail) = line := by
      simp [line, spanned, opened, Piece.text, Form.written]
    have hstart : (p.token (byteLength (before ++ closing))).start = byteLength opened := by
      simp [Piece.token, Form.token, opened, Nat.add_assoc]
    have hstop : (p.token (byteLength (before ++ closing))).stop = byteLength spanned := by
      simp [Piece.token, Form.token, spanned, opened, Nat.add_assoc]
    have hnext : byteLength (before ++ closing) + byteLength p.text =
        byteLength (spanned ++ p.form.closing) := by
      simp [spanned, opened, Piece.text, Form.written, Nat.add_assoc]
    -- what the line has before, in and behind the span
    have hbetween : slice line (byteLength before) (byteLength opened) =
        closing ++ p.gap ++ p.form.opening := by
      have hslice := slice_append before (closing ++ p.gap ++ p.form.opening)
        (p.source ++ p.form.closing ++ (written pieces ++ tail))
      rw [← byteLength_append] at hslice
      simpa [line, spanned, opened] using hslice
    have hspan : slice line (byteLength opened) (byteLength spanned) = p.source := by
      have hslice := slice_append opened p.source (p.form.closing ++ (written pieces ++ tail))
      rwa [← byteLength_append, ← List.append_assoc] at hslice
    have hopened : IsBoundary line (byteLength opened) := by
      have hcut : line = opened ++ (p.source ++ (p.form.closing ++ (written pieces ++ tail))) := by
        simp [line, spanned]
      exact hcut ▸ isBoundary_byteLength _ _
    have hspanned : IsBoundary line (byteLength spanned) := by
      have hcut : line = spanned ++ (p.form.closing ++ (written pieces ++ tail)) := by simp [line]
      exact hcut ▸ isBoundary_byteLength _ _
    rw [hline, tokensOf, hnext]
    refine @Faithful.cons mode line closing p.gap _ _ _ p.form hform.proper ?_ ?_ ?_ ?_ ?_ ?_ rfl
      ?_ ?_
    · rw [hstart]
      simp [opened]
    · rw [hstart, hstop]
      simp [spanned]
    · rw [hstop]
      simp [line]
    · rw [hstart, hstop]
      exact ⟨hopened, hspanned⟩
    · rw [hstart, hbetween]
    · rw [hstart, hstop, hspan]
      exact (gap_append_iff hform.opened_ne_nil).mp hgap
    · rw [hstart, hstop, hspan]
      rfl
    · rw [hstop]
      exact ih htail spanned p.form.closing

theorem faithful_of_scan {mode : Mode} {line : List Char} {tokens : List Token}
    (h : scan mode 0 line = .ok tokens) :
    Faithful mode line [] 0 tokens ∧ (cuts line 0 tokens).flatten = line := by
  obtain ⟨pieces, tail, rfl, hreads, htail, rfl⟩ := scan_eq_ok_iff.mp h
  have hfaithful := faithful_of_reads hreads htail [] []
  refine ⟨hfaithful, ?_⟩
  have hcuts := hfaithful.flatten_cuts (isBoundary_byteLength [] _)
  simpa [dropBytes_zero] using hcuts

/-- **Spans are faithful**. In both modes the tokens of a line have spans as `Faithful` describes
them, and the spans and what lies between them make up the line. -/
theorem spans_are_faithful (line : String) :
    (∀ tokens, tokenize line = .ok tokens → Faithful .strict line.toList [] 0 tokens ∧
      (cuts line.toList 0 tokens).flatten = line.toList) ∧
    Faithful .lenient line.toList [] 0 (tokenizePartial line) ∧
      (cuts line.toList 0 (tokenizePartial line)).flatten = line.toList :=
  ⟨fun _ h => faithful_of_scan h, faithful_of_scan (scan_lenient line)⟩

/-- A line with a word in each form, an escaped blank, an escaped quote and a comment. -/
theorem spans_are_faithful_of_forms :
    let line := "a\\ b \x27c\\\x27d\x27 %opt[e[]] # f\n"
    let tokens : List Token := [⟨.raw, "a b", 0, 4⟩, ⟨.raw, "c\x27d", 6, 10⟩,
      ⟨.expand .option, "e[]", 17, 20⟩, ⟨.separator, "\n", 25, 26⟩]
    tokenize line = .ok tokens ∧ Faithful .strict line.toList [] 0 tokens ∧
      (cuts line.toList 0 tokens).flatten = line.toList := by
  intro line tokens
  have htokens : tokenize line = .ok tokens := by decide +kernel
  exact ⟨htokens, (spans_are_faithful line).1 tokens htokens⟩

end CommandLine

end ModalEdit
