import Mathlib.Data.List.Pairwise
import ModalEdit.Pattern.Constructs

/-!
# Reading before more text

What is read from the start of a text is read in the same way when more text follows, provided that
this begins with a closing parenthesis, which continues nothing, and stays on its line. Where
nothing can be read, though, more text may help, but then the reading goes beyond its beginning. A
way to read is `Local` if it has both properties, and ways to read that are put together from such
ones have them, too (`Agree.bind`).

A comment that is still open at the end swallows all that follows on its line
(`Flags.skip_inComment`), so that what stands behind blanks and comments is either continued or not
there at all (`Flags.view_skip`). Readers look at that, but leave the blanks in the text.
-/

namespace ModalEdit.Pattern

open Text

/-- **`Stops more`** — the text is a line and begins with a parenthesis, which continues nothing. -/
structure Stops (more : List Char) : Prop where
  begins : ∃ rest, more = ')' :: rest
  oneLine : '\n' ∉ more

namespace Stops

variable {more : List Char}

theorem parenthesis (rest : List Char) (h : '\n' ∉ rest) : Stops (')' :: rest) :=
  ⟨⟨_, rfl⟩, by simpa using h⟩

theorem head?_any (h : Stops more) {p : Char → Bool} (hp : p ')' = false) (text : List Char) :
    (text ++ more).head?.any p = text.head?.any p := by
  obtain ⟨rest, rfl⟩ := h.begins
  cases text with
  | nil => simp [hp]
  | cons d text => rfl

theorem head?_eq_some (h : Stops more) {d : Char} (hd : d ≠ ')') (text : List Char) :
    (text ++ more).head? = some d ↔ text.head? = some d := by
  obtain ⟨rest, rfl⟩ := h.begins
  cases text with
  | nil => simp [hd.symm]
  | cons d text => rfl

theorem dropWhile_append (h : Stops more) {p : Char → Bool} (hp : p ')' = false)
    (text : List Char) : (text ++ more).dropWhile p = text.dropWhile p ++ more := by
  obtain ⟨rest, rfl⟩ := h.begins
  induction text with
  | nil => simp [hp]
  | cons d text ih => by_cases hd : p d <;> simp [hd, ih]

theorem takeWhile_append (h : Stops more) {p : Char → Bool} (hp : p ')' = false)
    (text : List Char) : (text ++ more).takeWhile p = text.takeWhile p := by
  obtain ⟨rest, rfl⟩ := h.begins
  induction text with
  | nil => simp [hp]
  | cons d text ih => by_cases hd : p d <;> simp [hd, ih]

/-- A mark is not found across the end of a text. -/
theorem isPrefixOf?_append (h : Stops more) {mark : List Char} (hmark : ')' ∉ mark)
    (text : List Char) :
    mark.isPrefixOf? (text ++ more) = (mark.isPrefixOf? text).map (· ++ more) := by
  obtain ⟨rest, rfl⟩ := h.begins
  induction mark generalizing text with
  | nil => simp [List.isPrefixOf?]
  | cons m mark ih =>
    obtain ⟨hne, hmark⟩ := List.ne_and_not_mem_of_not_mem_cons hmark
    cases text with
    | nil => simp [List.isPrefixOf?, hne.symm]
    | cons d text =>
      by_cases hd : m = d
      · simp [List.isPrefixOf?, hd, ih hmark text]
      · simp [List.isPrefixOf?, hd]

end Stops

theorem splitFirst_append_more (sep : Char) (text more : List Char) :
    splitFirst sep (text ++ more) =
      ((splitFirst sep text).map fun parts => (parts.1, parts.2 ++ more)).or
        ((splitFirst sep more).map fun parts => (text ++ parts.1, parts.2)) := by
  induction text with
  | nil => simp [splitFirst]
  | cons c text ih =>
    by_cases hc : c = sep
    · simp [splitFirst, hc]
    · simp only [List.cons_append, splitFirst, hc, if_false, ih]
      cases splitFirst sep text <;> cases splitFirst sep more <;> rfl

/-! ## Ways to read -/

section Reading

variable {α β : Type} {text rest more : List Char} {e e' : PatternError}
  {x y : Except PatternError (α × List Char)}

/-- **`Agree text more x y`** — how reading `text`, with result `x`, and reading it with `more`
behind it, with result `y`, go together. -/
structure Agree (text more : List Char) (x y : Except PatternError (α × List Char)) : Prop where
  suffix : ∀ a rest, x = .ok (a, rest) → rest <:+ text
  extend : ∀ a rest, x = .ok (a, rest) → y = .ok (a, rest ++ more)
  overrun : ∀ e a rest, x = .error e → y = .ok (a, rest) → rest.length < more.length

/-- **`Local f`** — what is read from a text does not depend on what follows. -/
def Local (f : List Char → Except PatternError (α × List Char)) : Prop :=
  ∀ text more, Stops more → Agree text more (f text) (f (text ++ more))

theorem Local.suffix {f : List Char → Except PatternError (α × List Char)} (h : Local f) {a : α}
    (hf : f text = .ok (a, rest)) : rest <:+ text :=
  (h text [')'] (.parenthesis [] List.not_mem_nil)).suffix a rest hf

namespace Agree

theorem ok (h : rest <:+ text) (a : α) :
    Agree text more (.ok (a, rest)) (.ok (a, rest ++ more)) := by
  refine ⟨?_, ?_, ?_⟩
  · rintro _ _ ⟨⟩
    exact h
  · rintro _ _ ⟨⟩
    rfl
  · rintro _ _ _ ⟨⟩

theorem beyond (h : ∀ a rest, y = .ok (a, rest) → rest.length < more.length) :
    Agree text more (.error e) y := by
  refine ⟨?_, ?_, fun _ => fun a rest _ => h a rest⟩
  · rintro _ _ ⟨⟩
  · rintro _ _ ⟨⟩

theorem error : Agree (α := α) text more (.error e) (.error e') := beyond (by rintro _ _ ⟨⟩)

theorem of_suffix (h : Agree rest more x y) (hrest : rest <:+ text) : Agree text more x y :=
  ⟨fun a left hx => (h.suffix a left hx).trans hrest, h.extend, h.overrun⟩

/-- A value that does not depend on the text. -/
theorem value (h : rest <:+ text) (v : Except PatternError α) :
    Agree text more (v.map (·, rest)) (v.map (·, rest ++ more)) := by
  cases v with
  | ok a => exact ok h a
  | error e => exact error

theorem bind {k : α × List Char → Except PatternError (β × List Char)} (h : Agree text more x y)
    (hmore : Stops more) (hk : ∀ a, Local fun rest => k (a, rest)) :
    Agree text more (x >>= k) (y >>= k) := by
  cases x with
  | ok read =>
    obtain ⟨a, rest⟩ := read
    rw [h.extend a rest rfl]
    exact (hk a rest more hmore).of_suffix (h.suffix a rest rfl)
  | error e =>
    refine beyond ?_
    intro b left hy
    cases y with
    | error e' => cases hy
    | ok read =>
      obtain ⟨a, rest⟩ := read
      have hle : left.length ≤ rest.length := ((hk a).suffix hy).length_le
      have hlt := h.overrun e a rest rfl rfl
      omega

theorem map {k : α × List Char → β × List Char} (h : Agree text more x y)
    (hk : ∀ a, ∃ b, ∀ rest, k (a, rest) = (b, rest)) :
    Agree text more (x.map k) (y.map k) := by
  cases x with
  | ok read =>
    obtain ⟨a, rest⟩ := read
    obtain ⟨b, hb⟩ := hk a
    rw [h.extend a rest rfl, Except.map, Except.map, hb, hb]
    exact ok (h.suffix a rest rfl) b
  | error e =>
    refine beyond ?_
    intro b left hy
    cases y with
    | error e' => cases hy
    | ok read =>
      obtain ⟨a, rest⟩ := read
      obtain ⟨b', hb⟩ := hk a
      rw [Except.map, hb] at hy
      cases hy
      exact h.overrun e a left rfl rfl

end Agree

theorem local_value (v : Except PatternError α) : Local fun rest => v.map (·, rest) :=
  fun text _ _ => .value text.suffix_refl v

theorem eq_of_value {v : Except PatternError α} {left : List Char} {a : α}
    (h : v.map (·, rest) = .ok (a, left)) : left = rest := by
  cases v with
  | ok b =>
    cases h
    rfl
  | error e => cases h

/-- A text has to have a first character. -/
theorem local_head {f : Char → List Char → Except PatternError (α × List Char)}
    (h : ∀ c, Local (f c)) :
    Local fun text => match text with
      | [] => .error e
      | c :: rest => f c rest := by
  intro text more hmore
  cases text with
  | nil =>
    obtain ⟨rest, rfl⟩ := hmore.begins
    exact .beyond fun a left hy => Nat.lt_succ_of_le ((h ')').suffix hy).length_le
  | cons c rest => exact (h c rest more hmore).of_suffix (List.suffix_cons c rest)

theorem local_readTo (sep : Char) : Local (readTo sep) := by
  intro text more hmore
  unfold readTo
  rw [splitFirst_append_more]
  cases hsplit : splitFirst sep text with
  | some parts =>
    obtain ⟨name, rest⟩ := parts
    exact .ok ⟨name ++ [sep], by rw [splitFirst_eq hsplit]; simp⟩ name
  | none =>
    refine .beyond fun name left hy => ?_
    cases hlater : splitFirst sep more with
    | none => simp [hlater] at hy
    | some parts =>
      rw [hlater] at hy
      cases hy
      exact length_lt_of_splitFirst hlater

theorem suffix_of_isPrefixOf? {mark : List Char} (h : mark.isPrefixOf? text = some rest) :
    rest <:+ text :=
  ⟨mark, List.isPrefixOf?_eq_some_iff_append_eq.mp h⟩

/-! ## Looking past blanks and comments -/

/-- **`View view`** — `view` shows an end of a text, which more text continues unless nothing is
shown of either. -/
structure View (view : List Char → List Char) : Prop where
  suffix : ∀ text, view text <:+ text
  extend : ∀ text more, Stops more →
    view (text ++ more) = view text ++ more ∨ (view text = [] ∧ view (text ++ more) = [])

namespace View

variable {view : List Char → List Char}

theorem id : View fun text => text := ⟨List.suffix_refl, fun _ _ _ => .inl rfl⟩

theorem isPrefixOf?_append (h : View view) (hmore : Stops more) {mark : List Char}
    (hmark : ')' ∉ mark) (hne : mark ≠ []) (text : List Char) :
    mark.isPrefixOf? (view (text ++ more)) = (mark.isPrefixOf? (view text)).map (· ++ more) := by
  rcases h.extend text more hmore with hview | ⟨hview, hview'⟩
  · rw [hview, hmore.isPrefixOf?_append hmark]
  · obtain ⟨m, mark, rfl⟩ := List.exists_cons_of_ne_nil hne
    rw [hview, hview']
    rfl

theorem suffix_of_isPrefixOf? (h : View view) {mark : List Char}
    (hmark : mark.isPrefixOf? (view text) = some rest) : rest <:+ text :=
  (Pattern.suffix_of_isPrefixOf? hmark).trans (h.suffix text)

/-- Reading what is shown. -/
theorem agree (h : View view) {f : List Char → Except PatternError (α × List Char)} (hf : Local f)
    (hnil : ∀ read, f [] ≠ .ok read) (hmore : Stops more) :
    Agree text more (f (view text)) (f (view (text ++ more))) := by
  rcases h.extend text more hmore with hview | ⟨hview, hview'⟩
  · rw [hview]
    exact (hf (view text) more hmore).of_suffix (h.suffix text)
  · rw [hview, hview']
    cases hfnil : f [] with
    | ok read => exact absurd hfnil (hnil read)
    | error e => exact .error

end View

end Reading

namespace Flags

variable {flags : Flags} {text more : List Char} {inComment : Bool} {c : Char}

theorem skip_of_not_verbose (h : flags.verbose = false) : flags.skip inComment text = text := by
  cases text <;> simp [skip, h]

/-- Whether a comment is open behind a character that is skipped; others are not. -/
def skipped? (inComment : Bool) (c : Char) : Option Bool :=
  if inComment then some (c ≠ '\n')
  else if isBlank c then some false
  else if c = '#' then some true
  else none

theorem skip_cons (h : flags.verbose = true) (rest : List Char) :
    flags.skip inComment (c :: rest) =
      (skipped? inComment c).elim (c :: rest) fun inComment => flags.skip inComment rest := by
  unfold skipped?
  rw [skip]
  simp only [h, Bool.not_true, Bool.false_eq_true, if_false]
  split
  · rfl
  split
  · rfl
  split <;> rfl

/-- An open comment swallows the rest of its line. -/
theorem skip_inComment (h : flags.verbose = true) (hline : '\n' ∉ text) :
    flags.skip true text = [] := by
  induction text with
  | nil => rfl
  | cons c rest ih =>
    obtain ⟨hc, hrest⟩ := List.ne_and_not_mem_of_not_mem_cons hline
    rw [skip_cons h, skipped?, if_pos rfl, decide_eq_true hc.symm]
    exact ih hrest

theorem skip_of_not_blank (hblank : isBlank c = false) (hc : c ≠ '#') (rest : List Char) :
    flags.skip false (c :: rest) = c :: rest := by
  simp [skip, hblank, hc]

theorem skip_append_of_ne_nil (h : flags.skip inComment text ≠ []) :
    flags.skip inComment (text ++ more) = flags.skip inComment text ++ more := by
  cases hverbose : flags.verbose with
  | false => rw [skip_of_not_verbose hverbose, skip_of_not_verbose hverbose]
  | true =>
    induction text generalizing inComment with
    | nil => exact absurd rfl h
    | cons c rest ih =>
      rw [skip_cons hverbose] at h
      rw [List.cons_append, skip_cons hverbose, skip_cons hverbose]
      cases hskipped : skipped? inComment c with
      | none => rfl
      | some next =>
        rw [hskipped] at h
        exact ih h

theorem skip_append_of_cons {rest : List Char} (h : flags.skip inComment text = c :: rest) :
    flags.skip inComment (text ++ more) = c :: (rest ++ more) := by
  rw [skip_append_of_ne_nil (by simp [h]), h]
  rfl

theorem suffix_of_skip_eq_cons {rest : List Char} (h : flags.skip inComment text = c :: rest) :
    c :: rest <:+ text :=
  h ▸ flags.skip_suffix inComment text

/-- Where nothing is left of a text, what follows is looked at afresh, unless a comment is still
open, which swallows it. -/
theorem skip_append_of_nil (hverbose : flags.verbose = true) (h : flags.skip inComment text = []) :
    (∀ more, flags.skip inComment (text ++ more) = flags.skip false more) ∨
      ∀ more, '\n' ∉ more → flags.skip inComment (text ++ more) = [] := by
  induction text generalizing inComment with
  | nil =>
    cases inComment with
    | true => exact .inr fun more hline => skip_inComment hverbose hline
    | false => exact .inl fun more => rfl
  | cons c rest ih =>
    rw [skip_cons hverbose] at h
    simp only [List.cons_append, skip_cons hverbose]
    cases hskipped : skipped? inComment c with
    | none =>
      rw [hskipped] at h
      cases h
    | some next =>
      rw [hskipped] at h
      exact ih h

theorem skip_of_stops (hmore : Stops more) : flags.skip false more = more := by
  obtain ⟨rest, rfl⟩ := hmore.begins
  exact skip_of_not_blank (by decide) (by decide) rest

theorem view_skip (flags : Flags) : View (flags.skip false) := by
  refine ⟨flags.skip_suffix false, fun text more hmore => ?_⟩
  by_cases hnil : flags.skip false text = []
  · rw [hnil]
    cases hverbose : flags.verbose with
    | false =>
      rw [skip_of_not_verbose hverbose] at hnil
      rw [skip_of_not_verbose hverbose, hnil]
      exact .inl rfl
    | true =>
      rcases skip_append_of_nil hverbose hnil with hafresh | hopen
      · rw [hafresh, skip_of_stops hmore]
        exact .inl rfl
      · exact .inr ⟨rfl, hopen more hmore.oneLine⟩
  · exact .inl (skip_append_of_ne_nil hnil)

end Flags

end ModalEdit.Pattern
