import ModalEdit.Editor.Completing
import ModalEdit.Proofs.TokenSpans
import ModalEdit.Proofs.UnfinishedLines

/-!
# The word that a completion replaces

Completion looks at the last token of the line before the cursor, or at an empty word where white
space comes last; whatever is completed then, the candidates replace as many bytes as that word says
(`Completions.Covers`). So they replace the word as it stands in the line unless an escape in it
says more than it means, and a word in which white space was typed last is not completed at all:
both are exact (`Scene.completion_replaces_word`).
-/

namespace ModalEdit

open Text (byteLength)

namespace Text

/-! ## Parts of a text -/

theorem isBoundary_end (text : List Char) : IsBoundary text (byteLength text) := by
  simpa using isBoundary_byteLength text []

/-- A boundary of a text up to some place is one of the whole text. -/
theorem IsBoundary.of_takeBytes {text : List Char} {n m : Nat}
    (h : IsBoundary (takeBytes text n) m) : IsBoundary text m := by
  obtain ⟨a, b, hab, rfl⟩ := h.exists_cut
  rw [← takeBytes_append_dropBytes text n, hab, List.append_assoc]
  exact isBoundary_byteLength a _

theorem IsBoundary.byteLength_slice {text : List Char} {start stop : Nat}
    (hstart : IsBoundary text start) (hstop : IsBoundary text stop) (h : start ≤ stop) :
    byteLength (slice text start stop) = stop - start := by
  have hrest (n : Nat) (hn : IsBoundary text n) : n + byteLength (dropBytes text n) =
      byteLength text := by
    conv_rhs => rw [← takeBytes_append_dropBytes text n, byteLength_append, byteLength_takeBytes, hn]
  have hcut := congrArg byteLength (slice_append_dropBytes h hstart hstop)
  rw [byteLength_append] at hcut
  have := hrest start hstart
  have := hrest stop hstop
  omega

theorem byteLength_le_of_sublist {a b : List Char} (h : a.Sublist b) :
    byteLength a ≤ byteLength b := by
  induction h with
  | slnil => exact le_rfl
  | cons c _ ih => exact ih.trans (Nat.le_add_left _ _)
  | cons_cons c _ ih => exact Nat.add_le_add_left ih _

/-- A part that is as long as the whole is the whole. -/
theorem eq_of_sublist_of_byteLength_le {a b : List Char} (h : a.Sublist b)
    (hle : byteLength b ≤ byteLength a) : a = b := by
  induction h with
  | slnil => rfl
  | cons c h _ =>
    have := byteLength_le_of_sublist h
    have := c.utf8Size_pos
    rw [byteLength_cons] at hle
    omega
  | cons_cons c _ ih => rw [ih (Nat.le_of_add_le_add_left hle)]

end Text

open Text (IsBoundary slice)

namespace CommandLine

/-! ## Tokens in their line -/

theorem withoutEscapes_sublist (p : Char → Bool) (text : List Char) :
    (withoutEscapes p text).Sublist text := by
  induction text with
  | nil => exact .slnil
  | cons c text ih =>
    rw [withoutEscapes]
    split_ifs
    · exact ih.cons c
    · exact ih.cons_cons c

theorem Form.content_sublist (form : Form) (source : List Char) :
    (form.content source).Sublist source := by
  cases form with
  | separator | block => exact .refl _
  | bare | quoted => exact withoutEscapes_sublist _ _

end CommandLine

/-- **`t.InLine line`** — the span of a token lies in the line, on character boundaries, and the
token says what is there, or less. -/
structure Token.InLine (t : Token) (line : List Char) : Prop where
  le : t.start ≤ t.stop
  stop_le : t.stop ≤ byteLength line
  start_boundary : IsBoundary line t.start
  stop_boundary : IsBoundary line t.stop
  content : t.content.toList.Sublist (slice line t.start t.stop)

/-- **`t.IsVerbatim line`** — a token says just what its span in the line holds: nothing in there
is escaped. -/
def Token.IsVerbatim (t : Token) (line : List Char) : Prop :=
  t.content.toList = slice line t.start t.stop

namespace Token.InLine

variable {t : Token} {line : List Char}

theorem start_add_le (h : t.InLine line) : t.start + byteLength t.content.toList ≤ t.stop := by
  have hlength := Text.byteLength_le_of_sublist h.content
  rw [h.start_boundary.byteLength_slice h.stop_boundary h.le] at hlength
  have := h.le
  omega

/-- A cursor behind a token is behind all that the token says. -/
theorem min_eq (h : t.InLine line) :
    min (byteLength line - t.start) (byteLength t.content.toList) =
      byteLength t.content.toList := by
  have := h.start_add_le
  have := h.stop_le
  omega

/-- A token is as long as its span only if it is verbatim. -/
theorem isVerbatim_iff (h : t.InLine line) :
    t.IsVerbatim line ↔ t.start + byteLength t.content.toList = t.stop := by
  have hspan := h.start_boundary.byteLength_slice h.stop_boundary h.le
  have := h.le
  constructor
  · intro heq
    rw [heq, hspan]
    omega
  · intro heq
    exact Text.eq_of_sublist_of_byteLength_le h.content (by omega)

end Token.InLine

namespace CommandLine

theorem Faithful.inLine {mode : Mode} {line closing : List Char} {stop : Nat} {tokens : List Token}
    (h : Faithful mode line closing stop tokens) : ∀ t ∈ tokens, t.InLine line := by
  induction h with
  | nil => simp
  | @cons _ _ _ t _ form _ _ hspan hstop hboundary _ _ _ hcontent _ ih =>
    refine List.forall_mem_cons.mpr ⟨⟨hspan, hstop, hboundary.1, hboundary.2, ?_⟩, ih⟩
    rw [hcontent, String.toList_ofList]
    exact form.content_sublist _

theorem inLine_of_mem_tokenizePartial {line : String} {t : Token}
    (h : t ∈ tokenizePartial line) : t.InLine line.toList :=
  (spans_are_faithful line).2.1.inLine t h

/-- **`StillOpen line t`** — the last token of an unfinished line is a word that reaches to the end
of it. -/
def StillOpen (line : String) (t : Token) : Prop :=
  (tokenizePartial line).getLast? = some t ∧ t.isSeparator = false ∧
    t.stop = byteLength line.toList

theorem Form.kind_eq_separator_iff {form : Form} : form.kind = .separator ↔ form = .separator := by
  cases form with
  | separator => exact ⟨fun _ => rfl, fun _ => rfl⟩
  | bare | quoted => exact ⟨nofun, nofun⟩
  | block letters =>
    rw [Form.kind]
    cases Expansion.ofName? letters <;> simp

/-- A word is still open if it is bare and reaches to the end of the line, or if it is a string or
block without its closing delimiter. -/
theorem stillOpen_iff {line : String} {t : Token} :
    StillOpen line t ↔ ∃ pieces p, line.toList = written (pieces ++ [p]) ∧
      Reads .lenient (pieces ++ [p]) [] ∧ p.form ≠ .separator ∧ p.form.closing = [] ∧
      t = p.token (byteLength (written pieces)) := by
  have hseparator (p : Piece) (position : Nat) :
      (p.token position).isSeparator = false ↔ p.form ≠ .separator := by
    simp [Token.isSeparator, Piece.token, Form.token, Form.kind_eq_separator_iff]
  constructor
  · rintro ⟨hlast, hword, hstop⟩
    obtain ⟨pieces, gap, hline, hreads, -, htokens⟩ := scan_eq_ok_iff.mp (scan_lenient line)
    obtain rfl | ⟨init, p, rfl⟩ := pieces.eq_nil_or_concat'
    · rw [htokens] at hlast
      cases hlast
    obtain rfl : p.token (byteLength (written init)) = t := by
      simpa [htokens, tokensOf_append, tokensOf] using hlast
    -- nothing is left behind the source of the last piece
    have hrest : byteLength p.form.closing = 0 ∧ byteLength gap = 0 := by
      rw [hline] at hstop
      simp [Piece.token, Form.token, Piece.text, Form.written] at hstop
      omega
    have hnil (text : List Char) (h : byteLength text = 0) : text = [] := by
      by_contra hne
      exact (Text.byteLength_pos hne).ne' h
    obtain rfl := hnil gap hrest.2
    exact ⟨init, p, by simpa using hline, hreads, (hseparator p _).mp hword, hnil _ hrest.1, rfl⟩
  · rintro ⟨pieces, p, hline, hreads, hform, hclosing, rfl⟩
    have htokens : tokenizePartial line = tokensOf 0 (pieces ++ [p]) := by
      refine tokenizePartial_of_scan ?_
      rw [hline, ← List.append_nil (written _)]
      exact scan_of_reads hreads .nil
    refine ⟨?_, (hseparator p _).mpr hform, ?_⟩
    · simp [htokens, tokensOf_append, tokensOf]
    · rw [hline, Piece.token, Form.token_stop hclosing]
      simp [Piece.text, Nat.add_assoc]

/-! ## The words before the cursor -/

theorem getLast?_lastCommand (tokens : List Token) :
    (lastCommand tokens).getLast? = tokens.getLast?.filter fun t => !t.isSeparator := by
  rw [lastCommand, List.getLast?_reverse, List.head?_takeWhile, List.head?_reverse]

theorem mem_of_mem_lastCommand {tokens : List Token} {t : Token} (h : t ∈ lastCommand tokens) :
    t ∈ tokens :=
  List.mem_reverse.mp ((List.takeWhile_sublist _).mem (List.mem_reverse.mp h))

end CommandLine

namespace Completions

open CommandLine

section Words

variable (line : String) (cursor : Nat)

theorem byteLength_typed : byteLength (typed line cursor) = floor line cursor :=
  Text.byteLength_takeBytes _ _

theorem inLine_emptyWord (text : List Char) : (emptyWord (byteLength text)).InLine text := by
  have hend := Text.isBoundary_end text
  exact ⟨le_rfl, le_rfl, hend, hend, List.nil_sublist _⟩

theorem ofText_of_getLast? {text : List Char} {t : Token} (n : Nat)
    (ht : (tokenizePartial (String.ofList text)).getLast? = some t) (hword : t.isSeparator = false) :
    Words.ofText text n =
      if endsBlank text then ⟨lastCommand (tokenizePartial (String.ofList text)), emptyWord n⟩
      else ⟨(lastCommand (tokenizePartial (String.ofList text))).dropLast, t⟩ := by
  have hlast : (lastCommand (tokenizePartial (String.ofList text))).getLast? = some t := by
    rw [getLast?_lastCommand, ht]
    simp [hword]
  simp only [Words.ofText, hlast]

/-- The word to complete is a token of the line before the cursor, or empty and at its end. -/
theorem inLine_current (text : List Char) :
    (Words.ofText text (byteLength text)).current.InLine text := by
  unfold Words.ofText
  dsimp only
  split
  next => exact inLine_emptyWord text
  next last hlast =>
    split_ifs
    · exact inLine_emptyWord text
    · have hmem := mem_of_mem_lastCommand (List.mem_of_getLast? hlast)
      simpa using inLine_of_mem_tokenizePartial hmem

theorem inLine_wordsAt : (wordsAt line cursor).current.InLine (typed line cursor) := by
  have h := inLine_current (typed line cursor)
  rwa [byteLength_typed] at h

end Words

/-! ## The range of an answer -/

/-- **`c.Covers query`** — the completions replace a whole query, or offer nothing behind it. -/
def Covers (c : Completions) (query : String) : Prop :=
  c = emptyAt (byteLength query.toList) ∨ c.start = 0 ∧ c.stop = byteLength query.toList

theorem Covers.stop_eq {c : Completions} {query : String} (h : c.Covers query) :
    c.stop = byteLength query.toList := by
  rcases h with rfl | h
  · rfl
  · exact h.2

theorem covers_emptyAt (query : String) : (emptyAt (byteLength query.toList)).Covers query := .inl rfl

theorem covers_ofNames (names : List String) (query : String) :
    (ofNames names query (byteLength query.toList)).Covers query :=
  .inr ⟨rfl, Text.isBoundary_end query.toList⟩

end Completions

open CommandLine Completions

namespace HighlighterGroup

variable {H : Type}

theorem covers_completeChildren (group : HighlighterGroup H) (query : List Char) :
    (group.completeChildren query (byteLength query)).Covers (String.ofList query) := by
  have h := covers_ofNames (Entries.names (group.filter fun entry => entry.2.isGroup))
    (String.ofList query)
  rwa [String.toList_ofList] at h

/-- A path of groups is replaced from the first of them on. -/
theorem covers_completePath (group : HighlighterGroup H) (query : List Char) :
    (group.completePath query (byteLength query)).Covers (String.ofList query) := by
  have hwhole : Text.takeBytes query (byteLength query) = query := by
    simpa using Text.takeBytes_append query []
  unfold completePath
  split
  next head rest hsplit =>
    split
    next child _ =>
      have hquery : query = head ++ '/' :: rest := by
        rw [← Text.splitFirst_eq hsplit, hwhole]
      have hshorter : rest.length < query.length := by
        rw [hwhole] at hsplit
        exact Text.length_lt_of_splitFirst hsplit
      have hbytes : byteLength query = byteLength rest + (byteLength head + 1) := by
        have hslash : ('/' : Char).utf8Size = 1 := by decide
        rw [hquery, Text.byteLength_append, Text.byteLength_cons, hslash]
        omega
      have hdrop : query.drop (head.length + 1) = rest := by
        rw [hquery]
        simp
      have hrest : (child.completePath rest (byteLength rest)).stop = byteLength rest := by
        have h := (covers_completePath child rest).stop_eq
        rwa [String.toList_ofList] at h
      dsimp only
      rw [hbytes, Nat.add_sub_cancel, hdrop]
      refine .inr ⟨rfl, ?_⟩
      rw [String.toList_ofList, hbytes, rooted, hrest]
    next => exact group.covers_completeChildren query
  next => exact group.covers_completeChildren query
  termination_by query.length

theorem covers_complete (group : HighlighterGroup H) (query : String) :
    (group.complete query (byteLength query.toList)).Covers query := by
  have h := group.covers_completePath query.toList
  rw [String.ofList_toList] at h
  rwa [complete, Text.isBoundary_end query.toList]

end HighlighterGroup

namespace Scene

variable (s : Scene) (query : String)

theorem covers_completeSubject (subject : CompletionSubject) :
    (s.completeSubject query (byteLength query.toList) subject).Covers query := by
  cases subject with
  | scope | option | optionType | keymapMode | factory => exact covers_ofNames _ query
  | highlighter =>
    rw [completeSubject]
    split
    · exact covers_ofNames _ query
    · exact covers_emptyAt query
  | highlighterGroup =>
    rw [completeSubject]
    split
    · exact HighlighterGroup.covers_complete _ query
    · exact covers_emptyAt query
  | definedGroup => exact HighlighterGroup.covers_complete _ query

theorem covers_completeWith (fast : Bool) (params : List String) (index : Nat)
    (completer : Completer) :
    (s.completeWith fast params index (byteLength query.toList) query completer).1.Covers query := by
  cases completer with
  | subjects subjects =>
    rw [completeWith]
    split
    · exact s.covers_completeSubject query _
    · exact covers_emptyAt query
  | script script =>
    rw [completeWith]
    split_ifs
    · exact covers_emptyAt query
    · dsimp only
      split
      · exact .inr ⟨rfl, rfl⟩
      · exact covers_emptyAt query

theorem covers_completeSwitchValue (command : Command) (name : String) :
    (s.completeSwitchValue command name query (byteLength query.toList)).Covers query := by
  rw [completeSwitchValue]
  split
  · exact s.covers_completeSubject query _
  · exact covers_emptyAt query

theorem covers_completeCommand :
    (s.completeCommand query (byteLength query.toList)).Covers query :=
  covers_ofNames _ query

theorem covers_completeArgument {fast : Bool} {command : Command} {args : List String}
    {answer : Completions × Option ShellCall}
    (h : s.completeArgument fast command args query (byteLength query.toList) = some answer) :
    answer.1.Covers query := by
  rw [completeArgument] at h
  split at h
  · split_ifs at h
    obtain rfl := Option.some.inj h
    exact s.covers_completeSwitchValue query _ _
  · split_ifs at h
    · obtain rfl := Option.some.inj h
      exact covers_ofNames _ query
    · obtain ⟨completer, -, rfl⟩ := Option.map_eq_some_iff.mp h
      exact s.covers_completeWith query _ _ _ _

/-- **Every answer** is empty at the cursor, or covers the word that is completed. -/
theorem completeWords_cases (fast : Bool) {text : List Char} {words : Words}
    (hcurrent : words.current.InLine text) :
    (s.completeWords fast (byteLength text) words).1 = emptyAt (byteLength text) ∨
      ∃ c : Completions, c.Covers words.current.content ∧
        (s.completeWords fast (byteLength text) words).1 = c.shift words.current.start := by
  rw [completeWords, hcurrent.min_eq]
  split
  next => exact .inr ⟨_, s.covers_completeCommand _, rfl⟩
  next name args _ =>
    split_ifs
    · exact .inl rfl
    · dsimp only
      split
      next c call h =>
        obtain ⟨command, -, hanswer⟩ := Option.bind_eq_some_iff.mp h
        exact .inr ⟨c, s.covers_completeArgument _ hanswer, rfl⟩
      next => exact .inl rfl

/-- The range of an answer lies before the cursor. With candidates it is as long as the word says,
and begins where the word does. -/
theorem range_completeWords (fast : Bool) {text : List Char} {words : Words}
    (hcurrent : words.current.InLine text) {answer : Completions}
    (hanswer : (s.completeWords fast (byteLength text) words).1 = answer) :
    answer.start ≤ answer.stop ∧ answer.stop ≤ byteLength text ∧
      (answer.candidates ≠ [] → answer.start = words.current.start ∧
        answer.stop = words.current.start + byteLength words.current.content.toList) ∧
      (words.current.IsVerbatim text →
        IsBoundary text answer.start ∧ IsBoundary text answer.stop) := by
  have hspan := hcurrent.start_add_le
  have hstop := hcurrent.stop_le
  have hlast (h : words.current.IsVerbatim text) : IsBoundary text
      (byteLength words.current.content.toList + words.current.start) := by
    rw [Nat.add_comm, hcurrent.isVerbatim_iff.mp h]
    exact hcurrent.stop_boundary
  have hend := Text.isBoundary_end text
  obtain h | ⟨c, hcovers, h⟩ := s.completeWords_cases fast hcurrent
  · obtain rfl := hanswer.symm.trans h
    exact ⟨le_rfl, le_rfl, fun hne => absurd rfl hne, fun _ => ⟨hend, hend⟩⟩
  · obtain rfl := hanswer.symm.trans h
    obtain rfl | ⟨hstart, hcstop⟩ := hcovers
    · refine ⟨le_rfl, ?_, fun hne => absurd rfl hne, fun hverbatim => ⟨hlast hverbatim, hlast hverbatim⟩⟩
      simp only [shift, emptyAt]
      omega
    · simp only [shift, hstart, hcstop, Nat.zero_add]
      exact ⟨by omega, by omega, fun _ => ⟨trivial, Nat.add_comm _ _⟩,
        fun hverbatim => ⟨hcurrent.start_boundary, hlast hverbatim⟩⟩

/-- **What a completion replaces**. Whatever is completed, the range of the answer ends before the
cursor, and on character boundaries if no escape stands in the word that is completed. A word still
being typed, the last of the line before the cursor, is completed unless white space comes last in
it; then a new word is. If it is, the candidates replace it from its beginning on, and up to the
cursor exactly if nothing in it is escaped. -/
theorem completion_replaces_word (s : Scene) (fast : Bool) (line : String) (cursor : Nat) :
    let before := typed line cursor
    let here := floor line cursor
    let word := (wordsAt line cursor).current
    let answer := (s.complete fast line cursor).1
    (answer.start ≤ answer.stop ∧ answer.stop ≤ here ∧
      (answer.candidates ≠ [] → answer.start = word.start ∧ IsBoundary line.toList answer.start) ∧
      (word.IsVerbatim before →
        IsBoundary line.toList answer.start ∧ IsBoundary line.toList answer.stop)) ∧
    ∀ t, StillOpen (String.ofList before) t →
      let words := lastCommand (tokenizePartial (String.ofList before))
      (endsBlank before = true →
        s.complete fast line cursor = s.completeWords fast here ⟨words, emptyWord here⟩) ∧
      (endsBlank before = false →
        s.complete fast line cursor = s.completeWords fast here ⟨words.dropLast, t⟩ ∧
        (answer.candidates ≠ [] →
          answer.start = t.start ∧ (answer.stop = here ↔ t.IsVerbatim before))) := by
  intro before here word answer
  have hhere : byteLength before = here := byteLength_typed line cursor
  have hword : word.InLine before := inLine_wordsAt line cursor
  have hanswer : (s.completeWords fast (byteLength before) (wordsAt line cursor)).1 = answer := by
    rw [hhere]
    rfl
  obtain ⟨hle, hstop, hrange, hboundaries⟩ := s.range_completeWords fast hword hanswer
  refine ⟨⟨hle, hhere ▸ hstop, fun hne => ?_, fun hverbatim => ?_⟩, fun t ht => ?_⟩
  · have hstart := (hrange hne).1
    exact ⟨hstart, hstart ▸ hword.start_boundary.of_takeBytes⟩
  · exact (hboundaries hverbatim).imp .of_takeBytes .of_takeBytes
  · have hwords := ofText_of_getLast? here ht.1 ht.2.1
    refine ⟨fun hblank => ?_, fun hblank => ?_⟩
    · rw [hblank, if_pos rfl] at hwords
      exact congrArg (s.completeWords fast here) hwords
    · rw [hblank, if_neg Bool.false_ne_true] at hwords
      refine ⟨congrArg (s.completeWords fast here) hwords, fun hne => ?_⟩
      obtain rfl : word = t := congrArg Words.current hwords
      obtain ⟨hstart, hcovered⟩ := hrange hne
      have hopen := ht.2.2
      rw [String.toList_ofList, hhere] at hopen
      refine ⟨hstart, ?_⟩
      rw [hcovered, hword.isVerbatim_iff, hopen]

/-- A word in an open string, with the cursor inside the character behind it. -/
theorem completion_replaces_word_of_open_string :
    let s : Scene := ⟨.new {}, { name := "main", document := 0, tracker := 0 }⟩
    let line := "é; set \x27glo€"
    let t : Token := ⟨.raw, "glo", 9, 12⟩
    floor line 14 = 12 ∧ (s.complete false line 14).1 = ⟨["global"], 9, 12⟩ ∧
      s.complete false line 14 = s.completeWords false 12 ⟨[⟨.raw, "set", 4, 7⟩], t⟩ ∧
      (12 = 12 ↔ t.IsVerbatim (typed line 14)) := by
  intro s line t
  have hfloor : floor line 14 = 12 := by decide +kernel
  have hbefore : (lastCommand (tokenizePartial (String.ofList (typed line 14)))).dropLast =
      [⟨.raw, "set", 4, 7⟩] := by decide +kernel
  have hopen : StillOpen (String.ofList (typed line 14)) t :=
    ⟨by decide +kernel, rfl, by decide +kernel⟩
  obtain ⟨hword, hrange⟩ :=
    ((s.completion_replaces_word false line 14).2 t hopen).2 (by decide +kernel)
  rw [hfloor, hbefore] at hword
  have hanswer : (s.complete false line 14).1 = ⟨["global"], 9, 12⟩ := by
    rw [hword]
    decide +kernel
  rw [hanswer, hfloor] at hrange
  exact ⟨hfloor, hanswer, hword, (hrange (by simp)).2⟩

/-- A blank that was typed last in an open string ends the word: the options are offered, as if a
scope were complete that still has to be written. -/
theorem completion_leaves_open_string :
    let s : Scene := ⟨.new {}, { name := "main", document := 0, tracker := 0 }⟩
    let line := "set \x27global "
    StillOpen line ⟨.raw, "global ", 5, 12⟩ ∧
      (s.complete false line 12).1 = ⟨["tabstop", "indentwidth", "filetype"], 12, 12⟩ := by
  intro s line
  have hwords : wordsAt line 12 =
      ⟨[⟨.raw, "set", 0, 3⟩, ⟨.raw, "global ", 5, 12⟩], emptyWord 12⟩ := by decide +kernel
  refine ⟨⟨by decide +kernel, rfl, by decide +kernel⟩, ?_⟩
  rw [complete, hwords]
  rfl

/-- A word with an escape is replaced but for its last byte, which is half a character. -/
theorem completion_cuts_escaped_word :
    let editor : Editor :=
      { Editor.new {} with scopes := { options := ⟨[(";é", { value := .int 1 })]⟩ } }
    let s : Scene := ⟨editor, { name := "main", document := 0, tracker := 0 }⟩
    let line := "set global \\;é"
    StillOpen line ⟨.raw, ";é", 11, 15⟩ ∧ (s.complete false line 15).1 = ⟨[";é"], 11, 14⟩ ∧
      ¬ IsBoundary line.toList 14 := by
  intro editor s line
  have hwords : wordsAt line 15 =
      ⟨[⟨.raw, "set", 0, 3⟩, ⟨.raw, "global", 4, 10⟩], ⟨.raw, ";é", 11, 15⟩⟩ := by decide +kernel
  refine ⟨⟨by decide +kernel, rfl, by decide +kernel⟩, ?_, ?_⟩
  · rw [complete, hwords]
    decide +kernel
  · unfold IsBoundary
    decide +kernel

end Scene

end ModalEdit
