import ModalEdit.Proofs.LinePieces

/-!
# Reading a command line piece by piece

The pieces of a line determine its tokens (`scan_reads`), and every line is made of pieces up to its
end or up to the construct that strict mode refuses (`exists_reads`). So what is true of tokens and
of errors can be read off the pieces behind them: `scan_eq_ok_iff` and `scan_eq_error_iff`.
-/

namespace ModalEdit.CommandLine

open ModalEdit.Text (byteLength byteLength_cons byteLength_append)

/-! ## From pieces to tokens -/

section Scan

variable {mode : Mode} {position : Nat} {c : Char} {rest : List Char}

theorem scan_blank (hc : isBlank c = true) :
    scan mode position (c :: rest) = scan mode (position + c.utf8Size) rest := by
  rw [scan, if_pos hc]

theorem scan_separator (hc : c = ';' ∨ c = '\n') :
    scan mode position (c :: rest) =
      (scan mode (position + c.utf8Size) rest).map
        ((separatorLexeme position c rest).token :: ·) := by
  have hblank : ¬ isBlank c = true := by rcases hc with rfl | rfl <;> decide
  rw [scan, if_neg hblank, if_pos hc]
  rfl

theorem scan_comment :
    scan mode position ('#' :: rest) =
      scan mode (position + 1 + byteLength (rest.takeWhile (· ≠ '\n')))
        (rest.dropWhile (· ≠ '\n')) := by
  rw [scan, if_neg (by decide), if_neg (by decide), if_pos rfl]
  rfl

theorem scan_word (hc : endsWord c = false) (hcomment : c ≠ '#') :
    scan mode position (c :: rest) =
      (wordStarting mode position c rest).bind fun l =>
        (scan mode l.next l.rest).map (l.token :: ·) := by
  have hblank : ¬ isBlank c = true := by
    intro h
    simp [endsWord, h] at hc
  have hseparator : ¬ (c = ';' ∨ c = '\n') := by
    intro h
    rcases h with rfl | rfl <;> cases hc
  rw [scan, if_neg hblank, if_neg hseparator, if_neg hcomment]
  split <;> simp_all [Except.bind]

/-- Gaps hold no token. -/
theorem scan_gap {gap : List Char} (h : Gap rest gap) :
    scan mode position (gap ++ rest) = scan mode (position + byteLength gap) rest := by
  induction h generalizing position with
  | nil => rfl
  | blank hc _ ih => rw [List.cons_append, scan_blank hc, ih, byteLength_cons, Nat.add_assoc]
  | @comment remark hremark hafter =>
    have hall : ∀ c ∈ remark, decide (c ≠ '\n') = true := by
      rintro c hc
      simp only [ne_eq, decide_eq_true_eq]
      rintro rfl
      exact hremark hc
    have hstop : ∀ c ∈ rest.head?, ¬ decide (c ≠ '\n') = true := by simpa using hafter
    have htake : rest.takeWhile (· ≠ '\n') = [] := by
      cases rest with
      | nil => rfl
      | cons c rest => exact List.takeWhile_cons_of_neg (hstop c rfl)
    have hdrop : rest.dropWhile (· ≠ '\n') = rest := by
      cases rest with
      | nil => rfl
      | cons c rest => exact List.dropWhile_cons_of_neg (hstop c rfl)
    rw [List.cons_append, scan_comment, List.takeWhile_append_of_pos hall, htake,
      List.dropWhile_append_of_pos hall, hdrop, List.append_nil, byteLength_cons, Nat.add_assoc]
    rfl

theorem blockKind_of_allowed {letters : List Char} (h : Form.Allowed mode letters) :
    blockKind mode position letters = .ok ((Expansion.ofName? letters).elim .raw .expand) := by
  unfold blockKind
  cases letters with
  | nil => rfl
  | cons c letters =>
    cases hname : Expansion.ofName? (c :: letters) with
    | some e => simp
    | none =>
      cases mode with
      | lenient => simp
      | strict => simpa [hname] using h.2 rfl

theorem quotedLexeme_closed {quote : Char} {source : List Char} (hquote : isQuote quote = true)
    (hspan : quotedSpan quote (source ++ quote :: rest) = (source, some rest)) :
    quotedLexeme mode position quote (source ++ quote :: rest) =
      .ok ((Form.quoted quote true).lexeme position source rest) := by
  rw [quotedLexeme, hspan]
  simp [Form.lexeme, Form.token, Form.opening, Form.kind, Form.content, unescape_quote hquote,
    Nat.add_assoc]

theorem quotedLexeme_open {quote : Char} {source : List Char} (hquote : isQuote quote = true)
    (hspan : quotedSpan quote source = (source, none)) :
    quotedLexeme mode position quote source =
      unterminated mode .unterminatedString position
        ((Form.quoted quote false).token position source) := by
  rw [quotedLexeme, hspan]
  simp [Form.token, Form.opening, Form.kind, Form.content, unescape_quote hquote]

theorem blockLexeme_closed {letters source : List Char} {opener closer : Char}
    (hletters : Form.Allowed mode letters)
    (hspan : blockSpan opener closer 0 (source ++ closer :: rest) = (source, some rest)) :
    blockLexeme mode position ⟨letters, opener, closer, source ++ closer :: rest⟩ =
      .ok ((Form.block letters opener closer true).lexeme position source rest) := by
  have hpercent : '%'.utf8Size = 1 := rfl
  rw [blockLexeme, blockKind_of_allowed hletters]
  simp [Except.bind, hspan, Form.lexeme, Form.token, Form.opening, Form.kind, Form.content,
    hpercent, Nat.add_assoc]

theorem blockLexeme_open {letters source : List Char} {opener closer : Char}
    (hletters : Form.Allowed mode letters)
    (hspan : blockSpan opener closer 0 source = (source, none)) :
    blockLexeme mode position ⟨letters, opener, closer, source⟩ =
      unterminated mode .unterminatedBlock position
        ((Form.block letters opener closer false).token position source) := by
  have hpercent : '%'.utf8Size = 1 := rfl
  rw [blockLexeme, blockKind_of_allowed hletters]
  simp [Except.bind, hspan, Form.token, Form.opening, Form.kind, Form.content, hpercent,
    Nat.add_assoc]

theorem wordStarting_quote (hc : isQuote c = true) :
    wordStarting mode position c rest = quotedLexeme mode position c rest := by
  rw [wordStarting, if_pos hc]

theorem wordStarting_block {head : BlockHead} (h : blockHead? rest = some head) :
    wordStarting mode position '%' rest = blockLexeme mode position head := by
  rw [wordStarting, if_neg (by decide), if_pos rfl, h]

theorem wordStarting_bare (hquote : isQuote c = false) (hblock : c = '%' → blockHead? rest = none) :
    wordStarting mode position c rest = .ok (wordLexeme position (c :: rest)) := by
  have hnone : (if c = '%' then blockHead? rest else none) = none := by
    split
    · exact hblock ‹_›
    · rfl
  rw [wordStarting, if_neg (by simp [hquote]), hnone]

theorem unterminated_lenient {form : Form} {source : List Char} {fault : ParseFault}
    (hmode : mode = .lenient) (hclosing : form.closing = []) :
    unterminated mode fault position (form.token position source) =
      .ok (form.lexeme position source []) := by
  subst hmode
  simp [unterminated, Form.lexeme, Form.token, Form.written, hclosing, Nat.add_assoc]

/-- The word that a form spells is read. -/
theorem wordStarting_spells {form : Form} {source after : List Char}
    (h : form.Spells mode source rest) (hform : form ≠ .separator)
    (hc : form.written source ++ rest = c :: after) :
    wordStarting mode position c after = .ok (form.lexeme position source rest) := by
  cases h with
  | separator => exact absurd rfl hform
  | @bare d source _ hd hcomment hquote hblock hspan hrest =>
    obtain ⟨rfl, rfl⟩ : d = c ∧ source ++ rest = after := by simpa using hc
    have hspan' : wordSpan (d :: (source ++ rest)) = (d :: source, rest) :=
      wordSpan_eq_iff.mpr ⟨hspan, hrest⟩
    rw [wordStarting_bare hquote fun hd =>
      (blockHead?_append_eq_none_iff hrest.endsWord_head).mpr (hblock hd), wordLexeme, hspan']
    simp [Form.lexeme, Form.token, Form.opening, Form.kind, Form.content, unescape_endsWord]
  | @quoted quote source _ hquote hspan =>
    obtain ⟨rfl, rfl⟩ : quote = c ∧ source ++ quote :: rest = after := by simpa using hc
    rw [wordStarting_quote hquote, quotedLexeme_closed hquote (hspan rest)]
  | @quotedOpen quote source hmode hquote hspan =>
    obtain ⟨rfl, rfl⟩ : quote = c ∧ source = after := by simpa using hc
    rw [wordStarting_quote hquote, quotedLexeme_open hquote hspan, unterminated_lenient hmode rfl]
  | @block letters source _ opener closer hletters hcloser hspan =>
    obtain ⟨rfl, rfl⟩ : '%' = c ∧ letters ++ opener :: (source ++ closer :: rest) = after := by
      simpa using hc
    rw [wordStarting_block (blockHead?_append hletters.1 hcloser),
      blockLexeme_closed hletters (hspan rest)]
  | @blockOpen letters source opener closer hmode hletters hcloser hspan =>
    obtain ⟨rfl, rfl⟩ : '%' = c ∧ letters ++ opener :: source = after := by simpa using hc
    rw [wordStarting_block (blockHead?_append hletters.1 hcloser),
      blockLexeme_open hletters hspan, unterminated_lenient hmode rfl]

/-- **Reading a form** — what is spelled in a form becomes its token. -/
theorem scan_spells {form : Form} {source : List Char} (h : form.Spells mode source rest) :
    scan mode position (form.written source ++ rest) =
      (scan mode (position + byteLength (form.written source)) rest).map
        (form.token position source :: ·) := by
  by_cases hform : form = .separator
  · subst hform
    cases h with
    | @separator c _ hc =>
      have htoken :
          (separatorLexeme position c rest).token = Form.separator.token position [c] := by
        rw [separatorLexeme, String.singleton_eq_ofList]
        rfl
      show scan mode position (c :: rest) = _
      rw [scan_separator hc, htoken]
      rfl
  · obtain ⟨c, after, hc⟩ := List.exists_cons_of_ne_nil
      (List.append_ne_nil_of_left_ne_nil h.written_ne_nil rest)
    obtain ⟨hstart, hcomment⟩ := h.start hform hc
    rw [hc, scan_word hstart hcomment, wordStarting_spells h hform hc]
    rfl

/-- **Reading pieces** — a line made of pieces has their tokens, then those of the rest. -/
theorem scan_reads {pieces : List Piece} (h : Reads mode pieces rest) :
    scan mode position (written pieces ++ rest) =
      (scan mode (position + byteLength (written pieces)) rest).map
        (tokensOf position pieces ++ ·) := by
  induction h generalizing position with
  | @nil rest =>
    show scan mode position rest = (scan mode position rest).map id
    cases scan mode position rest <;> rfl
  | @cons p pieces rest hgap hform _ ih =>
    have htext : written (p :: pieces) ++ rest =
        p.gap ++ (p.form.written p.source ++ (written pieces ++ rest)) := by
      simp [Piece.text, List.append_assoc]
    rw [htext, scan_gap ((gap_append_iff hform.written_ne_nil).mpr hgap), scan_spells hform, ih]
    have hstop : position + byteLength p.gap + byteLength (p.form.written p.source) =
        position + byteLength p.text := by
      rw [Piece.text, byteLength_append, Nat.add_assoc]
    rw [hstop, written_cons, byteLength_append, Nat.add_assoc]
    cases scan mode (position + (byteLength p.text + byteLength (written pieces))) rest <;> rfl

end Scan

/-! ## Every line is made of pieces -/

/-- **`Faulty text fault`** — what strict mode refuses where `text` begins. -/
inductive Faulty : List Char → ParseFault → Prop
  | string {quote : Char} {body : List Char} (hquote : isQuote quote = true)
      (hspan : quotedSpan quote body = (body, none)) : Faulty (quote :: body) .unterminatedString
  | block {letters body : List Char} {opener closer : Char}
      (hletters : Form.Allowed .strict letters) (hcloser : closerOf? opener = some closer)
      (hspan : blockSpan opener closer 0 body = (body, none)) :
      Faulty ('%' :: (letters ++ opener :: body)) .unterminatedBlock
  | unknown {letters body : List Char} {opener closer : Char}
      (hletters : ∀ c ∈ letters, c.isAlpha = true) (hne : letters ≠ [])
      (hname : Expansion.ofName? letters = none) (hcloser : closerOf? opener = some closer) :
      Faulty ('%' :: (letters ++ opener :: body)) (.unknownExpansion (String.ofList letters))

/-- Behind a gap the line is over, or a word or separator begins. -/
theorem exists_gap (text : List Char) :
    ∃ gap rest, text = gap ++ rest ∧ Gap rest gap ∧
      ∀ c ∈ rest.head?, isBlank c = false ∧ c ≠ '#' := by
  induction text with
  | nil => exact ⟨[], [], rfl, .nil, by simp⟩
  | cons c text ih =>
    cases hblank : isBlank c with
    | true =>
      obtain ⟨gap, rest, rfl, hgap, hrest⟩ := ih
      exact ⟨c :: gap, rest, rfl, .blank hblank hgap, hrest⟩
    | false =>
      by_cases hcomment : c = '#'
      · subst hcomment
        have hhead : ∀ d ∈ (text.dropWhile (· ≠ '\n')).head?, d = '\n' := by
          intro d hd
          have hstop := List.head?_dropWhile_not (fun c : Char => decide (c ≠ '\n')) text
          rw [hd] at hstop
          simpa using hstop
        refine ⟨'#' :: text.takeWhile (· ≠ '\n'), text.dropWhile (· ≠ '\n'), ?_, ?_, ?_⟩
        · rw [List.cons_append, List.takeWhile_append_dropWhile]
        · refine .comment (fun h => ?_) hhead
          simpa using List.mem_takeWhile_imp h
        · intro d hd
          rw [hhead d hd]
          decide
      · exact ⟨[], c :: text, rfl, .nil, by simp [hblank, hcomment]⟩

section Decomposition

variable (mode : Mode) {c : Char} (rest : List Char)

/-- **`Begins mode text`** — a text begins with a word in some form, or with what strict mode
refuses. -/
def Begins (mode : Mode) (text : List Char) : Prop :=
  (∃ (form : Form) (source after : List Char),
    text = form.written source ++ after ∧ form.Spells mode source after) ∨
    mode = .strict ∧ ∃ fault, Faulty text fault

theorem begins_quoted (hquote : isQuote c = true) : Begins mode (c :: rest) := by
  cases hafter : (quotedSpan c rest).2 with
  | some after =>
    refine .inl ⟨.quoted c true, (quotedSpan c rest).1, after, ?_,
      .quoted hquote (quotedSpan_congr hafter)⟩
    simpa using quotedSpan_closed hafter
  | none =>
    have hspan := quotedSpan_open hafter
    cases mode with
    | strict => exact .inr ⟨rfl, _, .string hquote hspan⟩
    | lenient =>
      exact .inl ⟨.quoted c false, rest, [], by simp, .quotedOpen rfl hquote hspan⟩

theorem begins_block {head : BlockHead} (h : blockHead? rest = some head) :
    Begins mode ('%' :: rest) := by
  obtain ⟨hletters, hcloser, rfl⟩ := blockHead?_eq_some h
  by_cases hknown : mode = .strict → head.letters = [] ∨ (Expansion.ofName? head.letters).isSome
  · have hallowed : Form.Allowed mode head.letters := ⟨hletters, hknown⟩
    cases hafter : (blockSpan head.opener head.closer 0 head.body).2 with
    | some after =>
      refine .inl ⟨.block head.letters head.opener head.closer true,
        (blockSpan head.opener head.closer 0 head.body).1, after, ?_,
        .block hallowed hcloser (blockSpan_congr hafter)⟩
      simpa using blockSpan_closed hafter
    | none =>
      have hspan := blockSpan_open hafter
      cases mode with
      | strict => exact .inr ⟨rfl, _, .block hallowed hcloser hspan⟩
      | lenient =>
        exact .inl ⟨.block head.letters head.opener head.closer false, head.body, [], by simp,
          .blockOpen rfl hallowed hcloser hspan⟩
  · obtain ⟨hmode, hunknown⟩ := Classical.not_imp.mp hknown
    obtain ⟨hne, hname⟩ := not_or.mp hunknown
    exact .inr ⟨hmode, _, .unknown hletters hne (Option.not_isSome_iff_eq_none.mp hname) hcloser⟩

theorem begins_bare (hc : endsWord c = false) (hcomment : c ≠ '#') (hquote : isQuote c = false)
    (hblock : c = '%' → blockHead? rest = none) : Begins mode (c :: rest) := by
  obtain ⟨d, source, hsource⟩ := List.exists_cons_of_ne_nil (wordSpan_ne_nil hc)
  have htext := wordSpan_append (c :: rest)
  rw [hsource, List.cons_append] at htext
  obtain ⟨rfl, htail⟩ := List.cons.inj htext
  have hspan : wordSpan (d :: source ++ (wordSpan (d :: rest)).2) =
      (d :: source, (wordSpan (d :: rest)).2) := by
    rw [List.cons_append, htail, ← hsource]
  obtain ⟨hword, hrest⟩ := wordSpan_eq_iff.mp hspan
  have hhead : d = '%' → blockHead? source = none := fun hd =>
    (blockHead?_append_eq_none_iff hrest.endsWord_head).mp (by rw [htail]; exact hblock hd)
  refine .inl ⟨.bare, d :: source, (wordSpan (d :: rest)).2, ?_,
    .bare hc hcomment hquote hhead hword hrest⟩
  simpa using htail.symm

theorem begins (hc : isBlank c = false) (hcomment : c ≠ '#') : Begins mode (c :: rest) := by
  by_cases hseparator : c = ';' ∨ c = '\n'
  · exact .inl ⟨.separator, [c], rest, rfl, .separator hseparator⟩
  have hends : endsWord c = false := by
    simpa [endsWord, hc] using hseparator
  cases hquote : isQuote c with
  | true => exact begins_quoted mode rest hquote
  | false =>
    cases hhead : blockHead? rest with
    | none => exact begins_bare mode rest hends hcomment hquote fun _ => hhead
    | some head =>
      by_cases hpercent : c = '%'
      · exact hpercent ▸ begins_block mode rest hhead
      · exact begins_bare mode rest hends hcomment hquote fun h => absurd h hpercent

end Decomposition

/-- **Every line is made of pieces** up to its end, or up to what strict mode refuses. -/
theorem exists_reads (mode : Mode) (text : List Char) :
    ∃ pieces gap rest, text = written pieces ++ (gap ++ rest) ∧ Reads mode pieces (gap ++ rest) ∧
      Gap rest gap ∧ (rest = [] ∨ mode = .strict ∧ ∃ fault, Faulty rest fault) := by
  obtain ⟨gap, rest, rfl, hgap, hrest⟩ := exists_gap text
  cases rest with
  | nil => exact ⟨[], gap, [], rfl, .nil, hgap, .inl rfl⟩
  | cons c rest =>
    obtain ⟨hblank, hcomment⟩ := hrest c rfl
    obtain ⟨form, source, after, htext, hform⟩ | hfault := begins mode rest hblank hcomment
    · have hshorter : after.length < (gap ++ c :: rest).length := by
        have hword := List.length_pos_iff.mpr hform.written_ne_nil
        rw [htext]
        simp only [List.length_append]
        omega
      obtain ⟨pieces, gap', rest', rfl, hreads, hgap', hend⟩ := exists_reads mode after
      rw [htext] at hgap ⊢
      refine ⟨⟨gap, form, source⟩ :: pieces, gap', rest', ?_, ?_, hgap', hend⟩
      · simp [Piece.text, List.append_assoc]
      · exact .cons ((gap_append_iff hform.written_ne_nil).mp hgap) hform hreads
    · exact ⟨[], gap, c :: rest, rfl, .nil, hgap, .inr hfault⟩
  termination_by text.length

/-! ## Results and pieces -/

section Results

variable {mode : Mode} {position : Nat} {text : List Char}

theorem scan_faulty {rest : List Char} {fault : ParseFault} (h : Faulty rest fault) :
    scan .strict position rest = .error ⟨fault, position⟩ := by
  cases h with
  | @string quote body hquote hspan =>
    have hstart : endsWord quote = false ∧ quote ≠ '#' := by
      rcases isQuote_iff.mp hquote with rfl | rfl <;> decide
    rw [scan_word hstart.1 hstart.2, wordStarting_quote hquote, quotedLexeme_open hquote hspan]
    rfl
  | block hletters hcloser hspan =>
    rw [scan_word (by decide) (by decide),
      wordStarting_block (blockHead?_append hletters.1 hcloser), blockLexeme_open hletters hspan]
    rfl
  | unknown hletters hne hname hcloser =>
    rw [scan_word (by decide) (by decide),
      wordStarting_block (blockHead?_append hletters hcloser), blockLexeme]
    simp [blockKind, hne, hname, Except.bind]

/-- A line that is over behind its pieces has their tokens. -/
theorem scan_of_reads {pieces : List Piece} {gap : List Char} (h : Reads mode pieces gap)
    (hgap : Gap [] gap) :
    scan mode position (written pieces ++ gap) = .ok (tokensOf position pieces) := by
  have hover : scan mode (position + byteLength (written pieces)) gap = .ok [] := by
    calc scan mode (position + byteLength (written pieces)) gap
        = scan mode (position + byteLength (written pieces)) (gap ++ []) := by rw [List.append_nil]
      _ = scan mode (position + byteLength (written pieces) + byteLength gap) [] := scan_gap hgap
      _ = .ok [] := by rw [scan]
  rw [scan_reads h, hover]
  exact congrArg Except.ok (List.append_nil _)

/-- A line that is refused behind its pieces is refused there. -/
theorem scan_of_faulty {pieces : List Piece} {gap rest : List Char} {fault : ParseFault}
    (h : Reads .strict pieces (gap ++ rest)) (hgap : Gap rest gap) (hfault : Faulty rest fault) :
    scan .strict position (written pieces ++ (gap ++ rest)) =
      .error ⟨fault, position + byteLength (written pieces ++ gap)⟩ := by
  rw [scan_reads h, scan_gap hgap, scan_faulty hfault, byteLength_append, Nat.add_assoc]
  rfl

/-- **Tokens come from pieces**. -/
theorem scan_eq_ok_iff {tokens : List Token} :
    scan mode position text = .ok tokens ↔
      ∃ pieces gap, text = written pieces ++ gap ∧ Reads mode pieces gap ∧ Gap [] gap ∧
        tokens = tokensOf position pieces := by
  constructor
  · intro h
    obtain ⟨pieces, gap, rest, rfl, hreads, hgap, rfl | ⟨rfl, fault, hfault⟩⟩ :=
      exists_reads mode text
    · rw [List.append_nil] at h hreads
      rw [scan_of_reads hreads hgap] at h
      exact ⟨pieces, gap, by rw [List.append_nil], hreads, hgap, (Except.ok.inj h).symm⟩
    · rw [scan_of_faulty hreads hgap hfault] at h
      cases h
  · rintro ⟨pieces, gap, rfl, hreads, hgap, rfl⟩
    exact scan_of_reads hreads hgap

/-- **Errors come behind pieces**: where the first construct stands that strict mode refuses. -/
theorem scan_eq_error_iff {e : ParseError} :
    scan mode position text = .error e ↔
      mode = .strict ∧ ∃ pieces gap rest, text = written pieces ++ (gap ++ rest) ∧
        Reads .strict pieces (gap ++ rest) ∧ Gap rest gap ∧ Faulty rest e.fault ∧
        e.position = position + byteLength (written pieces ++ gap) := by
  constructor
  · intro h
    obtain ⟨pieces, gap, rest, rfl, hreads, hgap, rfl | ⟨rfl, fault, hfault⟩⟩ :=
      exists_reads mode text
    · rw [List.append_nil] at h hreads
      rw [scan_of_reads hreads hgap] at h
      cases h
    · rw [scan_of_faulty hreads hgap hfault] at h
      cases h
      exact ⟨rfl, pieces, gap, rest, rfl, hreads, hgap, hfault, rfl⟩
  · rintro ⟨rfl, pieces, gap, rest, rfl, hreads, hgap, hfault, hposition⟩
    rw [scan_of_faulty hreads hgap hfault, ← hposition]

/-- What strict mode reads, lenient mode reads alike. -/
theorem scan_lenient_of_strict {tokens : List Token} (h : scan .strict position text = .ok tokens) :
    scan .lenient position text = .ok tokens := by
  obtain ⟨pieces, gap, rfl, hreads, hgap, rfl⟩ := scan_eq_ok_iff.mp h
  exact scan_of_reads hreads.lenient hgap

/-- **Lenient mode reads everything** — the tokens of an unfinished line are those that it reads. -/
theorem scan_lenient (line : String) :
    scan .lenient 0 line.toList = .ok (tokenizePartial line) := by
  unfold tokenizePartial
  split
  next h => exact h
  next e h => cases (scan_eq_error_iff.mp h).1

theorem tokenizePartial_of_scan {line : String} {tokens : List Token}
    (h : scan .lenient 0 line.toList = .ok tokens) : tokenizePartial line = tokens :=
  Except.ok.inj ((scan_lenient line).symm.trans h)

end Results

end ModalEdit.CommandLine
