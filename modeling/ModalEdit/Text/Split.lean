/-!
# Cutting texts at a separator

`splitFirst` and `splitLast` cut at the first or last occurrence of a character
and drop it; `splitAll` cuts at every occurrence. `splitFirst_eq` and
`joinWith_splitAll` say that only separators are dropped; `splitAll_joinWith` gives the segments
back if there is no separator in them.
-/

namespace ModalEdit.Text

/-- The parts before and after the first `sep`, if there is one. -/
def splitFirst (sep : Char) : List Char → Option (List Char × List Char)
  | [] => none
  | c :: cs =>
    if c = sep then some ([], cs)
    else (splitFirst sep cs).map fun parts => (c :: parts.1, parts.2)

/-- The parts before and after the last `sep`, if there is one. -/
def splitLast (sep : Char) (text : List Char) : Option (List Char × List Char) :=
  (splitFirst sep text.reverse).map fun parts => (parts.2.reverse, parts.1.reverse)

/-- The segments between all occurrences of `sep`; never empty. -/
def splitAll (sep : Char) : List Char → List (List Char)
  | [] => [[]]
  | c :: cs =>
    if c = sep then [] :: splitAll sep cs
    else match splitAll sep cs with
      | [] => [[c]]
      | segment :: segments => (c :: segment) :: segments

/-- The segments joined with `sep` between neighbours. -/
def joinWith (sep : Char) : List (List Char) → List Char
  | [] => []
  | [segment] => segment
  | segment :: segments => segment ++ sep :: joinWith sep segments

theorem splitFirst_eq {sep : Char} {text before after : List Char}
    (h : splitFirst sep text = some (before, after)) : text = before ++ sep :: after := by
  induction text generalizing before with
  | nil => simp [splitFirst] at h
  | cons c cs ih =>
    by_cases hc : c = sep
    · simp only [splitFirst, hc, if_true, Option.some.injEq, Prod.mk.injEq] at h
      obtain ⟨rfl, rfl⟩ := h
      simp [hc]
    · simp only [splitFirst, hc, if_false, Option.map_eq_some_iff] at h
      obtain ⟨⟨b, a⟩, hs, he⟩ := h
      simp only [Prod.mk.injEq] at he
      obtain ⟨rfl, rfl⟩ := he
      simp [ih hs]

theorem splitFirst_append {sep : Char} {before after : List Char} (h : sep ∉ before) :
    splitFirst sep (before ++ sep :: after) = some (before, after) := by
  induction before with
  | nil => simp [splitFirst]
  | cons c cs ih =>
    obtain ⟨hne, hrest⟩ := List.ne_and_not_mem_of_not_mem_cons h
    simp [splitFirst, Ne.symm hne, ih hrest]

theorem splitFirst_of_notMem {sep : Char} {text : List Char} (h : sep ∉ text) :
    splitFirst sep text = none := by
  induction text with
  | nil => rfl
  | cons c cs ih =>
    obtain ⟨hne, hrest⟩ := List.ne_and_not_mem_of_not_mem_cons h
    simp [splitFirst, Ne.symm hne, ih hrest]

theorem length_lt_of_splitFirst {sep : Char} {text before after : List Char}
    (h : splitFirst sep text = some (before, after)) : after.length < text.length := by
  rw [splitFirst_eq h]
  simp
  omega

theorem splitLast_eq {sep : Char} {text before after : List Char}
    (h : splitLast sep text = some (before, after)) : text = before ++ sep :: after := by
  simp only [splitLast, Option.map_eq_some_iff] at h
  obtain ⟨⟨b, a⟩, hs, he⟩ := h
  simp only [Prod.mk.injEq] at he
  obtain ⟨rfl, rfl⟩ := he
  have := congrArg List.reverse (splitFirst_eq hs)
  simpa using this

theorem splitLast_append {sep : Char} {before after : List Char} (h : sep ∉ after) :
    splitLast sep (before ++ sep :: after) = some (before, after) := by
  have hreverse : (before ++ sep :: after).reverse = after.reverse ++ sep :: before.reverse := by
    simp
  have hlast : sep ∉ after.reverse := fun hmem => h (List.mem_reverse.mp hmem)
  rw [splitLast, hreverse, splitFirst_append hlast]
  simp

theorem splitAll_ne_nil (sep : Char) (text : List Char) : splitAll sep text ≠ [] := by
  cases text with
  | nil => simp [splitAll]
  | cons c cs =>
    unfold splitAll
    split
    · simp
    · split <;> simp

theorem joinWith_splitAll (sep : Char) (text : List Char) :
    joinWith sep (splitAll sep text) = text := by
  induction text with
  | nil => rfl
  | cons c cs ih =>
    unfold splitAll
    split
    next h =>
      rw [joinWith, ih, h, List.nil_append]
      exact splitAll_ne_nil sep cs
    next =>
      split
      next h => exact absurd h (splitAll_ne_nil sep cs)
      next segment segments hs =>
        rw [hs] at ih
        cases segments with
        | nil => exact congrArg (c :: ·) ih
        | cons => exact congrArg (c :: ·) ih

/-! ## Joining and splitting again -/

theorem splitAll_of_notMem {sep : Char} {text : List Char} (h : sep ∉ text) :
    splitAll sep text = [text] := by
  induction text with
  | nil => rfl
  | cons c cs ih =>
    obtain ⟨hne, hrest⟩ := List.ne_and_not_mem_of_not_mem_cons h
    simp [splitAll, Ne.symm hne, ih hrest]

theorem splitAll_append_cons {sep : Char} {before : List Char} (h : sep ∉ before)
    (after : List Char) : splitAll sep (before ++ sep :: after) = before :: splitAll sep after := by
  induction before with
  | nil => simp [splitAll]
  | cons c cs ih =>
    obtain ⟨hne, hrest⟩ := List.ne_and_not_mem_of_not_mem_cons h
    simp [splitAll, Ne.symm hne, ih hrest]

theorem joinWith_cons {sep : Char} {segment : List Char} {segments : List (List Char)}
    (h : segments ≠ []) :
    joinWith sep (segment :: segments) = segment ++ sep :: joinWith sep segments := by
  cases segments with
  | nil => exact absurd rfl h
  | cons => rfl

theorem splitAll_joinWith {sep : Char} {segments : List (List Char)} (hsome : segments ≠ [])
    (hsep : ∀ segment ∈ segments, sep ∉ segment) :
    splitAll sep (joinWith sep segments) = segments := by
  induction segments with
  | nil => exact absurd rfl hsome
  | cons segment segments ih =>
    obtain ⟨hfirst, hrest⟩ := List.forall_mem_cons.mp hsep
    by_cases hlast : segments = []
    · subst hlast
      exact splitAll_of_notMem hfirst
    · rw [joinWith_cons hlast, splitAll_append_cons hfirst, ih hlast hrest]

theorem notMem_of_mem_splitAll {sep : Char} {text segment : List Char}
    (h : segment ∈ splitAll sep text) : sep ∉ segment := by
  induction text generalizing segment with
  | nil => simp_all [splitAll]
  | cons c cs ih =>
    unfold splitAll at h
    split at h
    next hc =>
      rcases List.mem_cons.mp h with rfl | h
      · exact List.not_mem_nil
      · exact ih h
    next hc =>
      split at h
      next hnil => exact absurd hnil (splitAll_ne_nil sep cs)
      next first rest hs =>
        rcases List.mem_cons.mp h with rfl | h
        · have hfirst : sep ∉ first := ih (hs ▸ List.mem_cons_self)
          exact List.not_mem_cons_of_ne_of_not_mem (Ne.symm hc) hfirst
        · exact ih (hs ▸ List.mem_cons_of_mem _ h)

end ModalEdit.Text
