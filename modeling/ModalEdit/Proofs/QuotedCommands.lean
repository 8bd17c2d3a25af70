import Mathlib.Data.List.Infix
import ModalEdit.CommandLine.Invocation
import ModalEdit.Proofs.LineReading

/-!
# Writing words so that they are read back

Every word can be written so that it is read back as it is: as a block if its braces balance, or
between quotes with its quotes escaped if it does not end in a backslash. A line of commands whose
words are written in either way is read as these commands with these words, whatever the words hold
(`reading_undoes_quoting`).
-/

namespace ModalEdit

/-- What a token says, apart from where it stands. -/
def Token.meaning (t : Token) : TokenKind × String := (t.kind, t.content)

/-- What a command says. -/
def Invocation.meaning (i : Invocation) : List (TokenKind × String) :=
  (i.name :: i.args).map Token.meaning

/-- Tokens that say nothing but words are one command. -/
theorem Invocation.ofTokens_of_meaning {tokens : List Token} {words : List String}
    (hne : words ≠ []) (h : tokens.map Token.meaning = words.map fun word => (.raw, word)) :
    (ofTokens tokens).map meaning = [words.map fun word => (.raw, word)] := by
  have hword : ∀ t ∈ tokens, t.isSeparator = false := by
    intro t ht
    have hmem := List.mem_map_of_mem (f := Token.meaning) ht
    rw [h] at hmem
    obtain ⟨word, -, hmeaning⟩ := List.mem_map.mp hmem
    have hkind : t.kind = .raw := (congrArg Prod.fst hmeaning).symm
    rw [Token.isSeparator, hkind]
    rfl
  cases tokens with
  | nil => exact absurd (List.map_eq_nil_iff.mp h.symm) hne
  | cons name args =>
    rw [ofTokens_words hword, ← h]
    rfl

namespace CommandLine

/-! ## Words -/

/-- **`BracesBalance word`** — no closing brace outnumbers the opening ones before it, and the
totals agree. -/
def BracesBalance (word : List Char) : Prop :=
  (∀ before, before <+: word → before.count '}' ≤ before.count '{') ∧
    word.count '}' = word.count '{'

instance (word : List Char) : Decidable (BracesBalance word) :=
  decidable_of_iff ((∀ before ∈ word.inits, before.count '}' ≤ before.count '{') ∧
    word.count '}' = word.count '{') (by simp only [List.mem_inits, BracesBalance])

/-- A word with a backslash before each of its quotes. -/
def escapeQuotes (word : List Char) : List Char :=
  word.flatMap fun c => if c = '\x27' then ['\\', '\x27'] else [c]

/-- **`Quotes word text`** — `text` is one of the ways to write a word. -/
inductive Quotes (word : List Char) : List Char → Prop
  | block (h : BracesBalance word) : Quotes word ('%' :: '{' :: (word ++ ['}']))
  | string (h : word.getLast? ≠ some '\\') : Quotes word ('\x27' :: (escapeQuotes word ++ ['\x27']))

/-- A brace changes the depth by what it adds to the totals. -/
theorem deeper_count {c : Char} {depth : Nat} (hc : ¬ (c = '}' ∧ depth = 0)) (text : List Char) :
    deeper '{' '}' c depth + (c :: text).count '}' + text.count '{' =
      depth + (c :: text).count '{' + text.count '}' := by
  by_cases hclose : c = '}'
  · subst hclose
    have hdepth : depth ≠ 0 := fun h => hc ⟨rfl, h⟩
    have hopen : ('}' :: text).count '{' = text.count '{' := List.count_cons_of_ne (by decide)
    rw [hopen, List.count_cons_self, deeper, if_pos rfl]
    omega
  · rw [List.count_cons_of_ne hclose, deeper, if_neg hclose]
    by_cases hopen : c = '{'
    · subst hopen
      rw [List.count_cons_self, if_pos rfl]
      omega
    · rw [List.count_cons_of_ne hopen, if_neg hopen]
      omega

/-- A block reaches to the brace that closes it, at any depth. -/
theorem blockSpan_of_balance {depth : Nat} {word : List Char}
    (hbefore : ∀ before, before <+: word → before.count '}' ≤ depth + before.count '{')
    (htotal : word.count '}' = depth + word.count '{') (rest : List Char) :
    blockSpan '{' '}' depth (word ++ '}' :: rest) = (word, some rest) := by
  induction word generalizing depth with
  | nil =>
    obtain rfl : depth = 0 := by simpa using htotal.symm
    simp [blockSpan]
  | cons c word ih =>
    have hdeep : ¬ (c = '}' ∧ depth = 0) := by
      rintro ⟨rfl, rfl⟩
      have h := hbefore ['}'] ⟨word, rfl⟩
      simp at h
    have hspan : blockSpan '{' '}' (deeper '{' '}' c depth) (word ++ '}' :: rest) =
        (word, some rest) := by
      refine ih (fun before hword => ?_) ?_
      · have hcount := hbefore (c :: before) (List.cons_prefix_cons.mpr ⟨rfl, hword⟩)
        have := deeper_count hdeep before
        omega
      · have := deeper_count hdeep word
        omega
    rw [List.cons_append, blockSpan_cons hdeep, hspan]

theorem escapeQuotes_quote (word : List Char) :
    escapeQuotes ('\x27' :: word) = '\\' :: '\x27' :: escapeQuotes word := rfl

theorem escapeQuotes_cons {c : Char} (hc : c ≠ '\x27') (word : List Char) :
    escapeQuotes (c :: word) = c :: escapeQuotes word := by
  rw [escapeQuotes, List.flatMap_cons, if_neg hc]
  rfl

theorem head?_escapeQuotes (word : List Char) : (escapeQuotes word).head? ≠ some '\x27' := by
  cases word with
  | nil => simp [escapeQuotes]
  | cons c word =>
    by_cases hc : c = '\x27'
    · subst hc
      simp [escapeQuotes_quote]
    · simp [escapeQuotes_cons hc, hc]

theorem quotedSpan_escapeQuotes {word : List Char} (h : word.getLast? ≠ some '\\')
    (rest : List Char) :
    quotedSpan '\x27' (escapeQuotes word ++ '\x27' :: rest) = (escapeQuotes word, some rest) := by
  induction word with
  | nil => exact quotedSpan_quote rest
  | cons c word ih =>
    have hword : word.getLast? ≠ some '\\' := getLast?_of_append_ne (a := [c]) h
    by_cases hc : c = '\x27'
    · subst hc
      rw [escapeQuotes_quote, List.cons_append, List.cons_append, quotedSpan_escape (by decide),
        ih hword]
    · have hesc : c = '\\' → (escapeQuotes word ++ '\x27' :: rest).head? ≠ some '\x27' := by
        rintro rfl
        -- the backslash is not the end of the word, and what follows it begins with no quote
        obtain ⟨d, more, hmore⟩ : ∃ d more, escapeQuotes word = d :: more := by
          cases word with
          | nil => exact absurd rfl h
          | cons d word =>
            by_cases hd : d = '\x27'
            · exact ⟨_, _, hd ▸ escapeQuotes_quote word⟩
            · exact ⟨_, _, escapeQuotes_cons hd word⟩
        have hhead := head?_escapeQuotes word
        rw [hmore] at hhead ⊢
        exact hhead
      rw [escapeQuotes_cons hc, List.cons_append, quotedSpan_cons hc hesc, ih hword]

theorem withoutEscapes_escapeQuotes (word : List Char) :
    withoutEscapes (· = '\x27') (escapeQuotes word) = word := by
  induction word with
  | nil => rfl
  | cons c word ih =>
    by_cases hc : c = '\x27'
    · subst hc
      have hquote : ('\x27' : Char) ≠ '\\' := by decide
      rw [escapeQuotes_quote, withoutEscapes, if_pos ⟨rfl, rfl⟩, withoutEscapes,
        if_neg fun h => hquote h.1, ih]
    · have hhead : ¬ (escapeQuotes word).head?.any (· = '\x27') = true := by
        simpa [Option.any_eq_true] using head?_escapeQuotes word
      rw [escapeQuotes_cons hc, withoutEscapes, if_neg fun h => hhead h.2, ih]

/-- A written word is spelled in a form whose content is the word. -/
theorem Quotes.exists_spells {word text : List Char} (h : Quotes word text) :
    ∃ (form : Form) (source : List Char), form.written source = text ∧ form.kind = .raw ∧
      form.content source = word ∧ ∀ rest, form.Spells .strict source rest := by
  cases h with
  | block h =>
    refine ⟨.block [] '{' '}' true, word, rfl, rfl, rfl, fun rest => .block ⟨by simp, ?_⟩ rfl ?_⟩
    · exact fun _ => .inl rfl
    · refine blockSpan_of_balance (fun before hbefore => ?_) ?_
      · rw [Nat.zero_add]
        exact h.1 before hbefore
      · rw [Nat.zero_add]
        exact h.2
  | string h =>
    exact ⟨.quoted '\x27' true, escapeQuotes word, rfl, rfl, withoutEscapes_escapeQuotes word,
      fun rest => .quoted rfl (quotedSpan_escapeQuotes h)⟩

/-! ## Commands -/

/-- **`CommandText words text`** — `text` is one of the ways to write the words of a command, with
spaces or tabs between them. -/
inductive CommandText : List String → List Char → Prop
  | last {word : String} {text : List Char} (h : Quotes word.toList text) : CommandText [word] text
  | cons {word : String} {words : List String} {text blanks more : List Char}
      (h : Quotes word.toList text) (hne : blanks ≠ []) (hblanks : ∀ c ∈ blanks, c = ' ' ∨ c = '\t')
      (hmore : CommandText words more) : CommandText (word :: words) (text ++ (blanks ++ more))

/-- **`LineText commands text`** — `text` is one of the ways to write the commands of a line, with
`;` or the end of a line between them. -/
inductive LineText : List (List String) → List Char → Prop
  | nil : LineText [] []
  | last {command : List String} {text : List Char} (h : CommandText command text) :
      LineText [command] text
  | cons {command next : List String} {commands : List (List String)} {text more : List Char}
      {c : Char} (h : CommandText command text) (hc : c = ';' ∨ c = '\n')
      (hmore : LineText (next :: commands) more) :
      LineText (command :: next :: commands) (text ++ c :: more)

theorem gap_of_blanks {after blanks : List Char} (h : ∀ c ∈ blanks, c = ' ' ∨ c = '\t') :
    Gap after blanks := by
  induction blanks with
  | nil => exact .nil
  | cons c blanks ih =>
    refine .blank ?_ (ih fun d hd => h d (List.mem_cons_of_mem c hd))
    rcases h c List.mem_cons_self with rfl | rfl <;> decide

/-- The pieces of a written command, which say its words. -/
theorem CommandText.exists_pieces {words : List String} {text : List Char}
    (h : CommandText words text) (blanks : List Char) (hblanks : ∀ c ∈ blanks, c = ' ' ∨ c = '\t') :
    ∃ pieces, written pieces = blanks ++ text ∧ (∀ rest, Reads .strict pieces rest) ∧
      ∀ position,
        (tokensOf position pieces).map Token.meaning = words.map fun word => (.raw, word) := by
  induction h generalizing blanks with
  | @last word text hword =>
    obtain ⟨form, source, htext, hkind, hcontent, hform⟩ := hword.exists_spells
    refine ⟨[⟨blanks, form, source⟩], ?_, fun rest => ?_, fun position => ?_⟩
    · simp [Piece.text, htext]
    · exact .cons (gap_of_blanks hblanks) (hform _) .nil
    · simp [tokensOf, Token.meaning, Piece.token, Form.token, hkind, hcontent]
  | @cons word words text blanks' more hword _ hblanks' _ ih =>
    obtain ⟨form, source, htext, hkind, hcontent, hform⟩ := hword.exists_spells
    obtain ⟨pieces, hwritten, hreads, hmeaning⟩ := ih blanks' hblanks'
    refine ⟨⟨blanks, form, source⟩ :: pieces, ?_, fun rest => ?_, fun position => ?_⟩
    · simp [Piece.text, htext, hwritten]
    · exact .cons (gap_of_blanks hblanks) (hform _) (hreads rest)
    · rw [tokensOf, List.map_cons, hmeaning]
      simp [Token.meaning, Piece.token, Form.token, hkind, hcontent]

theorem CommandText.ne_nil {words : List String} {text : List Char} (h : CommandText words text) :
    words ≠ [] := by
  cases h <;> simp

/-- The pieces of a written line, which say its commands. -/
theorem LineText.exists_pieces {commands : List (List String)} {text : List Char}
    (h : LineText commands text) :
    ∃ pieces, written pieces = text ∧ (∀ rest, Reads .strict pieces rest) ∧
      ∀ position, (Invocation.ofTokens (tokensOf position pieces)).map Invocation.meaning =
        commands.map fun words => words.map fun word => (.raw, word) := by
  induction h with
  | nil => exact ⟨[], rfl, fun _ => .nil, fun _ => rfl⟩
  | last h =>
    obtain ⟨pieces, hwritten, hreads, hmeaning⟩ := h.exists_pieces [] (by simp)
    refine ⟨pieces, hwritten, hreads, fun position => ?_⟩
    exact Invocation.ofTokens_of_meaning h.ne_nil (hmeaning position)
  | @cons command next commands text more c h hc _ ih =>
    obtain ⟨pieces, hwritten, hreads, hmeaning⟩ := h.exists_pieces [] (by simp)
    obtain ⟨pieces', hwritten', hreads', hmeaning'⟩ := ih
    refine ⟨pieces ++ ⟨[], .separator, [c]⟩ :: pieces', ?_, fun rest => ?_, fun position => ?_⟩
    · simp [hwritten, hwritten', Piece.text]
    · exact (hreads _).append (.cons .nil (.separator hc) (hreads' rest))
    · rw [tokensOf_append, tokensOf, Invocation.ofTokens_append_separator rfl, List.map_append,
        Invocation.ofTokens_of_meaning h.ne_nil (hmeaning position), hmeaning']
      rfl

/-- **Reading undoes quoting** — a line of commands whose words are written as blocks or between
quotes is read as these commands with these words. -/
theorem reading_undoes_quoting {commands : List (List String)} {line : String}
    (h : LineText commands line.toList) :
    ∃ invocations, parseInvocations line = .ok invocations ∧
      invocations.map Invocation.meaning =
        commands.map fun words => words.map fun word => (.raw, word) := by
  obtain ⟨pieces, hwritten, hreads, hmeaning⟩ := h.exists_pieces
  have hscan : tokenize line = .ok (tokensOf 0 pieces) := by
    rw [tokenize, ← hwritten]
    simpa using scan_of_reads (hreads []) .nil
  refine ⟨_, ?_, hmeaning 0⟩
  rw [parseInvocations, hscan]
  rfl

/-- Words that hold separators, quotes, braces, backslashes and wide characters, or nothing. -/
theorem reading_undoes_quoting_of_specials :
    let commands := [["a b;", "", "\x7b%#\n\x7d"], ["it\\\x27s", "é\x27"]]
    let line := "\x27a b;\x27 \t\x27\x27 %\x7b\x7b%#\n\x7d\x7d;\x27it\\\\\x27s\x27\t\x27é\\\x27\x27"
    LineText commands line.toList ∧ ∃ invocations, parseInvocations line = .ok invocations ∧
      invocations.map Invocation.meaning =
        commands.map fun words => words.map fun word => (.raw, word) := by
  intro commands line
  have hfirst : CommandText ["a b;", "", "\x7b%#\n\x7d"] _ :=
    .cons (.string (by decide)) (List.cons_ne_nil ' ' ['\t']) (by simp)
      (.cons (.string (by decide)) (List.cons_ne_nil ' ' []) (by simp)
        (.last (.block (by decide))))
  have hsecond : CommandText ["it\\\x27s", "é\x27"] _ :=
    .cons (.string (by decide)) (List.cons_ne_nil '\t' []) (by simp) (.last (.string (by decide)))
  have hline : LineText commands line.toList := by
    refine Eq.mp (congrArg (LineText commands) ?_) (.cons hfirst (.inl rfl) (.last hsecond))
    decide +kernel
  exact ⟨hline, reading_undoes_quoting hline⟩

end CommandLine

end ModalEdit
