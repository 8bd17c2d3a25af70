import Mathlib.Data.List.TakeWhile
import ModalEdit.CommandLine.Span

/-!
# What decides how far a word reaches

The spans of bare words, strings and blocks are read from the whole rest of a line, but they depend
on little of it. A bare word ends where a character comes that ends words, and no backslash stands
before it (`wordSpan_eq_iff`). A closed string or block is closed whatever follows it
(`quotedSpan_congr`, `blockSpan_congr`), and one that is not reaches to the end. A `%` that opens no
block opens none either where its word ends behind the same text (`blockHead?_append_eq_none_iff`).
-/

namespace ModalEdit.CommandLine

/-- A backslash is not among the characters that end words. -/
theorem endsWord_backslash : endsWord '\\' = false := by decide

/-- A text that does not end in a character has no such end. -/
theorem getLast?_of_append_ne {a b : List Char} {c : Char} (h : (a ++ b).getLast? ≠ some c) :
    b.getLast? ≠ some c := by
  intro hb
  exact h (by simp [hb])

/-! ## Bare words -/

/-- **`CanFollow source rest`** — a bare word with this source ends where `rest` begins: the line is
over, or a character that ends words comes, which no backslash makes part of the word. -/
def CanFollow (source rest : List Char) : Prop :=
  rest = [] ∨ source.getLast? ≠ some '\\' ∧ ∃ c after, rest = c :: after ∧ endsWord c = true

variable {source rest text : List Char}

theorem CanFollow.of_append {more : List Char} (h : CanFollow source (rest ++ more)) :
    CanFollow source rest := by
  cases rest with
  | nil => exact .inl rfl
  | cons c rest =>
    obtain h | ⟨hlast, d, after, hrest, hd⟩ := h
    · exact absurd h (List.cons_ne_nil _ _)
    · obtain ⟨rfl, -⟩ := List.cons.inj hrest
      exact .inr ⟨hlast, c, rest, rfl, hd⟩

theorem CanFollow.endsWord_head (h : CanFollow source rest) :
    ∀ c ∈ rest.head?, endsWord c = true := by
  rintro c hc
  obtain rfl | ⟨-, d, after, rfl, hd⟩ := h
  · cases hc
  · exact Option.some.inj hc ▸ hd

/-- The first character of the source does not matter if there is another one. -/
theorem canFollow_cons {c : Char} (h : source ≠ []) :
    CanFollow (c :: source) rest ↔ CanFollow source rest := by
  rw [CanFollow, CanFollow, List.getLast?_cons_of_ne_nil h]

theorem wordSpan_fst_ne_nil {c : Char} (h : (wordSpan (c :: rest)).1 = []) : endsWord c = true := by
  cases hc : endsWord c with
  | true => rfl
  | false => exact absurd h (wordSpan_ne_nil hc)

/-- What follows a bare word can follow it. -/
theorem canFollow_wordSpan (text : List Char) :
    CanFollow (wordSpan text).1 (wordSpan text).2 := by
  fun_induction wordSpan text with
  | case1 => exact .inl rfl
  | case2 c hc => exact .inr ⟨by simp, c, [], rfl, hc⟩
  | case3 => exact .inl rfl
  | case4 c d rest hc => exact .inr ⟨by simp, c, d :: rest, rfl, hc⟩
  | case5 c d rest _ hesc source after hspan ih =>
    rw [hspan] at ih
    rcases ih with h | ⟨hlast, h⟩
    · exact .inl h
    · refine .inr ⟨?_, h⟩
      cases source with
      | nil =>
        -- the word ends with the escaped character, which is no backslash
        intro hlast
        have hd : d = '\\' := by simpa using hlast
        rw [hd, endsWord_backslash] at hesc
        exact Bool.false_ne_true hesc.2
      | cons x source => simpa using hlast
  | case6 c d rest hc hesc source after hspan ih =>
    rw [hspan] at ih
    cases source with
    | nil =>
      have hd : endsWord d = true := wordSpan_fst_ne_nil (by rw [hspan])
      refine .inr ⟨?_, ?_⟩
      · rintro ⟨⟩
        exact hesc ⟨rfl, hd⟩
      · rcases ih with h | ⟨-, h⟩
        · have happ := wordSpan_append (d :: rest)
          rw [hspan, h] at happ
          cases happ
        · exact h
    | cons x source => exact (canFollow_cons (List.cons_ne_nil _ _)).mpr ih

/-- The source of a bare word is a bare word by itself. -/
theorem wordSpan_fst (text : List Char) :
    wordSpan (wordSpan text).1 = ((wordSpan text).1, []) := by
  fun_induction wordSpan text with
  | case1 => rfl
  | case2 => rfl
  | case3 c hc => simp [wordSpan, hc]
  | case4 => rfl
  | case5 c d rest hc hesc source after hspan ih =>
    rw [hspan] at ih
    simp only at ih ⊢
    rw [wordSpan, if_neg hc, if_pos hesc, ih]
  | case6 c d rest hc hesc source after hspan ih =>
    rw [hspan] at ih
    simp only at ih ⊢
    cases source with
    | nil => simp [wordSpan, hc]
    | cons x source =>
      have happ := wordSpan_append (d :: rest)
      rw [hspan] at happ
      obtain ⟨rfl, -⟩ := List.cons.inj happ
      rw [wordSpan, if_neg hc, if_neg hesc, ih]

theorem wordSpan_append_of_canFollow (hsource : wordSpan source = (source, []))
    (hrest : CanFollow source rest) : wordSpan (source ++ rest) = (source, rest) := by
  obtain rfl | ⟨hlast, x, after, rfl, hx⟩ := hrest
  · rwa [List.append_nil]
  fun_induction wordSpan source with
  | case1 => cases after <;> simp [wordSpan, hx]
  | case2 c hc => simp at hsource
  | case3 c hc =>
    have hesc : ¬ (c = '\\' ∧ endsWord x = true) := fun h => hlast (by rw [h.1]; rfl)
    have hnil : wordSpan (x :: after) = ([], x :: after) := by cases after <;> simp [wordSpan, hx]
    show wordSpan (c :: x :: after) = _
    rw [wordSpan, if_neg hc, if_neg hesc, hnil]
  | case4 c d rest hc => simp at hsource
  | case5 c d rest hc hesc source' after' hspan ih =>
    obtain ⟨hrest, rfl⟩ := Prod.mk.inj hsource
    obtain rfl : source' = rest := by simpa using hrest
    have hlast' : source'.getLast? ≠ some '\\' := by
      cases source' with
      | nil => simp
      | cons y source' => simpa using hlast
    show wordSpan (c :: d :: (source' ++ x :: after)) = _
    rw [wordSpan, if_neg hc, if_pos hesc, ih hspan hlast']
  | case6 c d rest hc hesc source' after' hspan ih =>
    obtain ⟨hrest, rfl⟩ := Prod.mk.inj hsource
    obtain rfl : source' = d :: rest := by simpa using hrest
    have hlast' : (d :: rest).getLast? ≠ some '\\' := by simpa using hlast
    have htail := ih hspan hlast'
    rw [List.cons_append] at htail
    show wordSpan (c :: d :: (rest ++ x :: after)) = _
    rw [wordSpan, if_neg hc, if_neg hesc, htail]

/-- **Where bare words end** — a line starts with a bare word if its source is one by itself and the
rest can follow it. -/
theorem wordSpan_eq_iff :
    wordSpan (source ++ rest) = (source, rest) ↔
      wordSpan source = (source, []) ∧ CanFollow source rest := by
  constructor
  · intro h
    have hsource := wordSpan_fst (source ++ rest)
    have hrest := canFollow_wordSpan (source ++ rest)
    rw [h] at hsource hrest
    exact ⟨hsource, hrest⟩
  · rintro ⟨hsource, hrest⟩
    exact wordSpan_append_of_canFollow hsource hrest

/-! ## Strings -/

variable {quote : Char}

theorem quotedSpan_quote (rest : List Char) :
    quotedSpan quote (quote :: rest) = ([], some rest) := by
  cases rest <;> simp [quotedSpan]

/-- A character that is no quote belongs to the string, if it does not escape one. -/
theorem quotedSpan_cons {c : Char} (hc : c ≠ quote)
    (hesc : c = '\\' → text.head? ≠ some quote) :
    quotedSpan quote (c :: text) = (c :: (quotedSpan quote text).1, (quotedSpan quote text).2) := by
  cases text with
  | nil => simp [quotedSpan, hc]
  | cons d text =>
    have hesc' : ¬ (c = '\\' ∧ d = quote) := fun h => hesc h.1 (congrArg some h.2)
    rw [quotedSpan, if_neg hc, if_neg hesc']

theorem quotedSpan_escape (hquote : quote ≠ '\\') (rest : List Char) :
    quotedSpan quote ('\\' :: quote :: rest) =
      ('\\' :: quote :: (quotedSpan quote rest).1, (quotedSpan quote rest).2) := by
  rw [quotedSpan, if_neg hquote.symm, if_pos ⟨rfl, rfl⟩]

/-- A string that is not closed reaches to the end. -/
theorem quotedSpan_open (h : (quotedSpan quote text).2 = none) :
    quotedSpan quote text = (text, none) := by
  fun_induction quotedSpan quote text <;> simp_all

/-- **Where strings end** — a closed string is closed whatever follows it. -/
theorem quotedSpan_congr {after : List Char} (h : (quotedSpan quote text).2 = some after)
    (rest : List Char) :
    quotedSpan quote ((quotedSpan quote text).1 ++ quote :: rest) =
      ((quotedSpan quote text).1, some rest) := by
  fun_induction quotedSpan quote text with
  | case1 => cases h
  | case2 => exact quotedSpan_quote rest
  | case3 => cases h
  | case4 => exact quotedSpan_quote rest
  | case5 c d more hc hesc source after' hspan ih =>
    rw [hspan] at ih
    have htail : quotedSpan quote (source ++ quote :: rest) = (source, some rest) := ih h
    show quotedSpan quote (c :: d :: (source ++ quote :: rest)) = _
    rw [quotedSpan, if_neg hc, if_pos hesc, htail]
  | case6 c d more hc hesc source after' hspan ih =>
    have happ : d :: more = source ++ quote :: after := by
      have hclosed : (quotedSpan quote (d :: more)).2 = some after := by rw [hspan]; exact h
      simpa only [hspan] using quotedSpan_closed hclosed
    rw [hspan] at ih
    have htail : quotedSpan quote (source ++ quote :: rest) = (source, some rest) := ih h
    cases source with
    | nil =>
      obtain ⟨rfl, -⟩ := List.cons.inj happ
      show quotedSpan d (c :: d :: rest) = _
      rw [quotedSpan, if_neg hc, if_neg hesc, quotedSpan_quote]
    | cons x source =>
      obtain ⟨rfl, -⟩ := List.cons.inj happ
      rw [List.cons_append] at htail
      show quotedSpan quote (c :: d :: (source ++ quote :: rest)) = _
      rw [quotedSpan, if_neg hc, if_neg hesc, htail]

/-! ## Blocks -/

variable {opener closer : Char} {depth : Nat}

/-- **`deeper opener closer c depth`** — how deep a block is nested behind the character `c`. -/
def deeper (opener closer c : Char) (depth : Nat) : Nat :=
  if c = closer then depth - 1 else if c = opener then depth + 1 else depth

/-- Any character but the last delimiter belongs to the block. -/
theorem blockSpan_cons {c : Char} (hc : ¬ (c = closer ∧ depth = 0)) :
    blockSpan opener closer depth (c :: text) =
      (c :: (blockSpan opener closer (deeper opener closer c depth) text).1,
        (blockSpan opener closer (deeper opener closer c depth) text).2) := by
  rw [blockSpan, if_neg hc]
  rfl

/-- A block that is not closed reaches to the end. -/
theorem blockSpan_open (h : (blockSpan opener closer depth text).2 = none) :
    blockSpan opener closer depth text = (text, none) := by
  fun_induction blockSpan opener closer depth text <;> simp_all

/-- **Where blocks end** — a closed block is closed whatever follows it. -/
theorem blockSpan_congr {after : List Char}
    (h : (blockSpan opener closer depth text).2 = some after) (rest : List Char) :
    blockSpan opener closer depth ((blockSpan opener closer depth text).1 ++ closer :: rest) =
      ((blockSpan opener closer depth text).1, some rest) := by
  fun_induction blockSpan opener closer depth text with
  | case1 => cases h
  | case2 depth c more hc => simp [blockSpan, hc.2]
  | case3 depth c more hc depth' source after' hspan ih =>
    rw [hspan] at ih
    have htail : blockSpan opener closer (deeper opener closer c depth)
        (source ++ closer :: rest) = (source, some rest) := ih h
    show blockSpan opener closer depth (c :: (source ++ closer :: rest)) = _
    rw [blockSpan_cons hc, htail]

/-! ## The beginning of a block -/

/-- No block is opened by a character that ends words, and none of these is a letter. -/
theorem not_opener_of_endsWord {c : Char} (h : endsWord c = true) :
    closerOf? c = none ∧ c.isAlpha = false := by
  have hc : c = ' ' ∨ c = '\t' ∨ c = '\r' ∨ c = ';' ∨ c = '\n' := by
    simpa [endsWord, isBlank, or_assoc] using h
  rcases hc with rfl | rfl | rfl | rfl | rfl <;> decide

/-- A character that opens blocks is not a letter. -/
theorem isAlpha_of_closerOf? {c closer : Char} (h : closerOf? c = some closer) :
    c.isAlpha = false := by
  cases ha : c.isAlpha with
  | false => rfl
  | true =>
    have hpunctuation : closerOf?.isPunctuation c = false := by
      simp [closerOf?.isPunctuation, Char.isAlphanum, ha]
    have hne : ∀ d : Char, d.isAlpha = false → c ≠ d := by
      rintro d hd rfl
      rw [ha] at hd
      cases hd
    simp [closerOf?, hpunctuation, hne '{' rfl, hne '(' rfl, hne '[' rfl, hne '<' rfl] at h

/-- Letters and an opening delimiter begin a block. -/
theorem blockHead?_append {letters body : List Char} {opener closer : Char}
    (hletters : ∀ c ∈ letters, c.isAlpha = true) (hcloser : closerOf? opener = some closer) :
    blockHead? (letters ++ opener :: body) = some ⟨letters, opener, closer, body⟩ := by
  have hopener : ¬ opener.isAlpha = true := by simp [isAlpha_of_closerOf? hcloser]
  have hdrop : (letters ++ opener :: body).dropWhile Char.isAlpha = opener :: body := by
    rw [List.dropWhile_append_of_pos hletters, List.dropWhile_cons_of_neg hopener]
  have htake : (letters ++ opener :: body).takeWhile Char.isAlpha = letters := by
    rw [List.takeWhile_append_of_pos hletters, List.takeWhile_cons_of_neg hopener, List.append_nil]
  rw [blockHead?, hdrop, htake]
  simp [hcloser]

/-- What begins a block: letters and an opening delimiter. -/
theorem blockHead?_eq_some {head : BlockHead} (h : blockHead? rest = some head) :
    (∀ c ∈ head.letters, c.isAlpha = true) ∧ closerOf? head.opener = some head.closer ∧
      rest = head.letters ++ head.opener :: head.body := by
  refine ⟨?_, ?_, blockHead_eq h⟩ <;> unfold blockHead? at h <;> split at h
  · cases h
  · obtain ⟨closer, -, rfl⟩ := Option.map_eq_some_iff.mp h
    exact fun c hc => List.mem_takeWhile_imp hc
  · cases h
  · obtain ⟨closer, hcloser, rfl⟩ := Option.map_eq_some_iff.mp h
    exact hcloser

theorem blockHead?_eq_none_iff :
    blockHead? rest = none ↔ ∀ c ∈ (rest.dropWhile Char.isAlpha).head?, closerOf? c = none := by
  unfold blockHead?
  cases hdrop : rest.dropWhile Char.isAlpha <;> simp

/-- **Where nothing begins** — a `%` that opens no block opens none either if its word ends behind
the same text. -/
theorem blockHead?_append_eq_none_iff (h : ∀ c ∈ rest.head?, endsWord c = true) :
    blockHead? (text ++ rest) = none ↔ blockHead? text = none := by
  rw [blockHead?_eq_none_iff, blockHead?_eq_none_iff, List.dropWhile_append]
  cases hdrop : text.dropWhile Char.isAlpha with
  | cons d after => simp
  | nil =>
    cases rest with
    | nil => simp
    | cons c after =>
      obtain ⟨hcloser, halpha⟩ := not_opener_of_endsWord (h c (by simp))
      simp [halpha, hcloser]

end ModalEdit.CommandLine
