import ModalEdit.Key.Sequence
import ModalEdit.Proofs.OptionTexts

/-!
# Written keys are read back

The keys that reading a text can give are the writable ones (`writable_of_readFrom`), and the
written form of a writable key reads as that key, whatever text follows it (`readFrom_chars`). So
the written forms of keys that were read, one behind the other, read as these keys again
(`readSequence_join_text`).

That written forms do not run together has one reason: a `<` or `>` is only ever written as a
bracket, since these characters have names. And between brackets only modifiers are written with a
dash, since the dash has a name.
-/

namespace ModalEdit

open Text

/-! ## Names -/

namespace KeyCode

/-- **`code.Nameable`** — there is a name for the key that can stand between brackets. -/
def Nameable : KeyCode → Prop
  | char c => c = ' ' ∨ isBlank c = false
  | function n => 1 ≤ n ∧ n ≤ 12
  | _ => True

instance : DecidablePred Nameable
  | char c => inferInstanceAs (Decidable (c = ' ' ∨ isBlank c = false))
  | function n => inferInstanceAs (Decidable (1 ≤ n ∧ n ≤ 12))
  | escape | enter | tab | backspace | delete | up | down | left | right | home | lineEnd
  | pageUp | pageDown => .isTrue trivial

/-- The characters that have a name of more than one letter. -/
def spelledOut : List Char := [' ', '<', '>', '-', ';']

theorem name_char {c : Char} (h : c ∉ spelledOut) : name (char c) = [c] := by
  simp only [spelledOut, List.mem_cons, List.not_mem_nil, or_false, not_or] at h
  obtain ⟨hspace, hlt, hgt, hminus, hsemicolon⟩ := h
  have hnone : named.find? (fun entry => entry.2 = char c) = none := by
    simp [named, Ne.symm hspace, Ne.symm hlt, Ne.symm hgt, Ne.symm hminus, Ne.symm hsemicolon]
  simp only [name, hnone]

theorem name_function (n : Nat) : name (function n) = 'f' :: decimal n := by
  have hnone : named.find? (fun entry => entry.2 = function n) = none := by simp [named]
  simp only [name, hnone, Nat.toString_eq_repr, Nat.toList_repr]

/-- A single letter is no other key's name. -/
theorem ofName?_single (c : Char) : ofName? [c] = some (char c) := by
  have hnamed : named.find? (fun entry => entry.1.toList = [c]) = none := by simp [named]
  have hfunction : ofFunctionName? [c] = none := by
    unfold ofFunctionName?
    split
    next digits heq =>
      obtain ⟨-, rfl⟩ := List.cons.inj heq
      rfl
    next => rfl
  simp [ofName?, ofSingle?, hnamed, hfunction]

theorem ofName?_name {code : KeyCode} (h : code.Nameable) : ofName? code.name = some code := by
  cases code with
  | char c =>
    by_cases hspelled : c ∈ spelledOut
    · simp only [spelledOut, List.mem_cons, List.not_mem_nil, or_false] at hspelled
      rcases hspelled with rfl | rfl | rfl | rfl | rfl <;> rfl
    · rw [name_char hspelled, ofName?_single]
  | function n =>
    obtain ⟨hlow, hhigh⟩ := h
    have hnamed : named.find? (fun entry => entry.1.toList = 'f' :: decimal n) = none := by
      simp [named]
    have hfunction : ofFunctionName? ('f' :: decimal n) = some (function n) := by
      simp [ofFunctionName?, readNat?_decimal (show n ≤ 255 by omega), hlow, hhigh]
    rw [name_function, ofName?, hnamed, hfunction]
    rfl
  | _ => rfl

/-- Whether a character is neither blank, nor a bracket, nor a dash. -/
def isPlainLetter (c : Char) : Bool := !isBlank c && c ≠ '<' && c ≠ '>' && c ≠ '-'

theorem isPlainLetter_of_mem_name {code : KeyCode} (h : code.Nameable) {c : Char}
    (hc : c ∈ code.name) : isPlainLetter c = true := by
  cases code with
  | char x =>
    by_cases hspelled : x ∈ spelledOut
    · simp only [spelledOut, List.mem_cons, List.not_mem_nil, or_false] at hspelled
      rcases hspelled with rfl | rfl | rfl | rfl | rfl <;> exact List.all_eq_true.mp rfl c hc
    · rw [name_char hspelled, List.mem_singleton] at hc
      subst hc
      simp only [spelledOut, List.mem_cons, List.not_mem_nil, or_false, not_or] at hspelled
      obtain ⟨hspace, hlt, hgt, hminus, -⟩ := hspelled
      have hblank : isBlank c = false := h.resolve_left hspace
      simp [isPlainLetter, hblank, hlt, hgt, hminus]
  | function n =>
    rw [name_function] at hc
    rcases List.mem_cons.mp hc with rfl | hdigit
    · rfl
    · have hc' := isDigit_of_mem_decimal hdigit
      have hblank := isBlank_of_isDigit hc'
      have hne : ∀ d : Char, d.isDigit = false → c ≠ d := by
        rintro d hd rfl
        rw [hc'] at hd
        cases hd
      simp [isPlainLetter, hblank, hne '<' rfl, hne '>' rfl, hne '-' rfl]
  | _ => exact List.all_eq_true.mp rfl c hc

theorem name_ne_nil {code : KeyCode} (h : code.Nameable) : code.name ≠ [] := by
  intro hname
  have hread := ofName?_name h
  rw [hname] at hread
  cases hread

/-- Brackets name nameable keys only, for there is no blank between them. -/
theorem nameable_of_ofName? {name : List Char} {code : KeyCode}
    (hblank : ∀ c ∈ name, isBlank c = false) (h : ofName? name = some code) : code.Nameable := by
  have hall : ∀ entry ∈ named, entry.2.Nameable := by decide
  unfold ofName? at h
  rcases Option.or_eq_some_iff.mp h with hnamed | ⟨-, h⟩
  · obtain ⟨entry, hentry, rfl⟩ := Option.map_eq_some_iff.mp hnamed
    exact hall entry (List.mem_of_find?_eq_some hentry)
  rcases Option.or_eq_some_iff.mp h with hfunction | ⟨-, hsingle⟩
  · unfold ofFunctionName? at hfunction
    split at hfunction
    next digits =>
      obtain ⟨n, hn, rfl⟩ := Option.map_eq_some_iff.mp hfunction
      simpa [Nameable] using (Option.filter_eq_some_iff.mp hn).2
    next => cases hfunction
  · unfold ofSingle? at hsingle
    split at hsingle
    next c =>
      obtain rfl := Option.some.inj hsingle
      exact .inr (hblank _ (List.mem_singleton_self _))
    next => cases hsingle

end KeyCode

namespace Key

/-! ## Brackets -/

theorem splitModifiers_of_no_dash (held : Modifiers) {name : List Char} (h : '-' ∉ name) :
    splitModifiers held name = (held, name) := by
  unfold splitModifiers
  split
  next letter next rest => simp at h
  next => rfl

/-- The modifiers that are written are split off again, and nothing else is. -/
theorem splitModifiers_text (m : Modifiers) {name : List Char} (hname : name ≠ [])
    (hdash : '-' ∉ name) : splitModifiers {} (m.text ++ name) = (m, name) := by
  obtain ⟨next, rest, rfl⟩ := List.exists_cons_of_ne_nil hname
  have hend := fun held => splitModifiers_of_no_dash held hdash
  obtain ⟨ctrl, alt, shift⟩ := m
  cases ctrl <;> cases alt <;> cases shift <;>
    simp [Modifiers.text, splitModifiers, Modifiers.add?, hend]

theorem ofBracketText?_text {key : Key} (h : key.code.Nameable) :
    ofBracketText? (key.modifiers.text ++ key.code.name) = some key := by
  have hdash : '-' ∉ key.code.name := by
    intro hmem
    cases KeyCode.isPlainLetter_of_mem_name h hmem
  rw [ofBracketText?, splitModifiers_text _ (KeyCode.name_ne_nil h) hdash]
  simp [KeyCode.ofName?_name h]

theorem mem_modifiers_text {m : Modifiers} {c : Char} (h : c ∈ m.text) :
    c ∈ ['c', 'a', 's', '-'] := by
  unfold Modifiers.text at h
  grind

/-- What is written between brackets neither makes them literal nor closes them early. -/
theorem of_mem_bracketText {key : Key} (h : key.code.Nameable) {c : Char}
    (hc : c ∈ key.modifiers.text ++ key.code.name) : isBlank c = false ∧ c ≠ '<' ∧ c ≠ '>' := by
  rcases List.mem_append.mp hc with hmodifier | hname
  · have hletter := mem_modifiers_text hmodifier
    simp only [List.mem_cons, List.not_mem_nil, or_false] at hletter
    rcases hletter with rfl | rfl | rfl | rfl <;> decide
  · have hplain := KeyCode.isPlainLetter_of_mem_name h hname
    simp only [KeyCode.isPlainLetter, Bool.and_eq_true, Bool.not_eq_true', decide_eq_true_eq]
      at hplain
    obtain ⟨⟨⟨hblank, hlt⟩, hgt⟩, -⟩ := hplain
    exact ⟨hblank, hlt, hgt⟩

theorem bracketContent?_text {key : Key} (h : key.code.Nameable) (rest : List Char) :
    bracketContent? (key.modifiers.text ++ key.code.name ++ '>' :: rest) =
      some (key.modifiers.text ++ key.code.name, rest) := by
  have hclose : '>' ∉ key.modifiers.text ++ key.code.name := fun hmem =>
    (of_mem_bracketText h hmem).2.2 rfl
  have hopen : '<' ∉ key.modifiers.text ++ key.code.name := fun hmem =>
    (of_mem_bracketText h hmem).2.1 rfl
  have hblank : (key.modifiers.text ++ key.code.name).any isBlank = false :=
    List.any_eq_false.mpr fun c hc => by simp [(of_mem_bracketText h hc).1]
  have hempty : (key.modifiers.text ++ key.code.name).isEmpty = false := by
    simp [KeyCode.name_ne_nil h]
  have hliteral : isLiteralContent (key.modifiers.text ++ key.code.name) = false := by
    rw [isLiteralContent, hblank, hempty]
    simpa using hopen
  rw [bracketContent?, splitFirst_append hclose]
  simp [Option.filter, hliteral]

/-! ## One key -/

/-- **`key.Writable`** — the key has a written form that is read as this key: it has a name, or it
is a character without modifiers, other than the two that stand for keys of their own. -/
def Writable (key : Key) : Prop :=
  key.code.Nameable ∨ ∃ c, key = ofChar c ∧ c ≠ '\n' ∧ c ≠ '\t'

theorem readFrom_bracketed {key : Key} (h : key.code.Nameable) (position : Nat)
    (rest : List Char) : readFrom position (key.bracketed ++ rest) =
      (readFrom (position + byteLength key.bracketed) rest).map (key :: ·) := by
  have hshape : key.bracketed ++ rest =
      '<' :: (key.modifiers.text ++ key.code.name ++ '>' :: rest) := by simp [bracketed]
  have hlength : position + byteLength (key.modifiers.text ++ key.code.name) + 2 =
      position + byteLength key.bracketed := by
    have hopen : '<'.utf8Size = 1 := rfl
    have hclose : '>'.utf8Size = 1 := rfl
    simp only [bracketed, byteLength_cons, byteLength_append, byteLength_nil, hopen, hclose]
    omega
  rw [hshape, readFrom, if_pos rfl]
  split
  next content after hcontent =>
    rw [bracketContent?_text h] at hcontent
    obtain ⟨rfl, rfl⟩ := Prod.mk.inj (Option.some.inj hcontent)
    rw [ofBracketText?_text h, ← hlength]
  next hnone =>
    rw [bracketContent?_text h] at hnone
    cases hnone

/-- Outside brackets, any character but an opening bracket is taken by itself. -/
theorem readFrom_plain {c : Char} (h : c ≠ '<') (position : Nat) (rest : List Char) :
    readFrom position (c :: rest) =
      (readFrom (position + c.utf8Size) rest).map (ofPlain c :: ·) := by
  rw [readFrom, if_neg h]

theorem char?_eq_some_iff {key : Key} {c : Char} : key.char? = some c ↔ key = ofChar c := by
  obtain ⟨⟨ctrl, alt, shift⟩, code⟩ := key
  cases code <;> simp [char?, ofChar, Modifiers.isEmpty, and_assoc, and_comm]

theorem Writable.ofPlain_eq {c : Char} (h : (ofChar c).Writable) : ofPlain c = ofChar c := by
  have hne : c ≠ '\n' ∧ c ≠ '\t' := by
    rcases h with (hspace | hblank) | ⟨d, hd, hne⟩
    · subst hspace
      decide
    · constructor <;> (rintro rfl; cases hblank)
    · obtain rfl : c = d := by simpa [ofChar] using hd
      exact hne
  rw [ofPlain, if_neg hne.1, if_neg hne.2]

/-- **One key** — the written form of a key is read as that key, whatever follows it. -/
theorem readFrom_chars {key : Key} (h : key.Writable) (position : Nat) (rest : List Char) :
    readFrom position (key.chars ++ rest) =
      (readFrom (position + byteLength key.chars) rest).map (key :: ·) := by
  unfold chars
  split
  next c hc =>
    obtain rfl := char?_eq_some_iff.mp hc
    split
    next hneeds =>
      -- brackets around a plain character are there because it has a name
      have hname : (KeyCode.char c).Nameable := by
        simp only [needsBrackets, Bool.or_eq_true, decide_eq_true_eq] at hneeds
        rcases hneeds with (rfl | rfl) | rfl
        · exact .inr rfl
        · exact .inr rfl
        · exact .inl rfl
      exact readFrom_bracketed hname position rest
    next hneeds =>
      have hopen : c ≠ '<' := by
        rintro rfl
        exact hneeds rfl
      rw [List.singleton_append, readFrom_plain hopen, h.ofPlain_eq]
      rfl
  next hnone =>
    refine readFrom_bracketed ?_ position rest
    rcases h with hname | ⟨c, rfl, -⟩
    · exact hname
    · cases hnone

/-! ## Sequences of keys -/

theorem readFrom_flatMap_chars {keys : List Key} (h : ∀ key ∈ keys, key.Writable)
    (position : Nat) : readFrom position (keys.flatMap chars) = .ok keys := by
  induction keys generalizing position with
  | nil => rw [List.flatMap_nil, readFrom]
  | cons key keys ih =>
    obtain ⟨hkey, hkeys⟩ := List.forall_mem_cons.mp h
    rw [List.flatMap_cons, readFrom_chars hkey, ih hkeys]
    rfl

theorem writable_ofPlain (c : Char) : (ofPlain c).Writable := by
  unfold ofPlain
  split
  · exact .inl trivial
  split
  · exact .inl trivial
  next hline htab => exact .inr ⟨c, rfl, hline, htab⟩

theorem splitModifiers_suffix (held : Modifiers) (content : List Char) :
    (splitModifiers held content).2 <:+ content := by
  fun_induction splitModifiers held content with
  | case1 held letter next rest more _ ih =>
    exact ih.trans ((List.suffix_cons '-' _).trans (List.suffix_cons letter _))
  | case2 => exact List.suffix_refl _
  | case3 => exact List.suffix_refl _

/-- A key that brackets name. -/
theorem writable_of_brackets {rest content after : List Char} {key : Key}
    (hcontent : bracketContent? rest = some (content, after))
    (hkey : ofBracketText? content = some key) : key.Writable := by
  have hliteral := (Option.filter_eq_some_iff.mp hcontent).2
  have hblank : ∀ c ∈ content, isBlank c = false := by
    simp only [isLiteralContent, Bool.not_eq_true', Bool.or_eq_false_iff, List.any_eq_false,
      Bool.not_eq_true] at hliteral
    exact hliteral.1.2
  obtain ⟨code, hcode, rfl⟩ := Option.map_eq_some_iff.mp hkey
  refine .inl (KeyCode.nameable_of_ofName? (fun c hc => hblank c ?_) hcode)
  exact (splitModifiers_suffix {} content).subset hc

/-- **Reading gives writable keys only** — along the recursion of the reader: a key comes from
brackets, or from a character that is taken by itself. -/
theorem writable_of_readFrom {position : Nat} {text : List Char} {keys : List Key}
    (h : readFrom position text = .ok keys) : ∀ key ∈ keys, key.Writable := by
  have hstep : ∀ {key : Key} {result : Except KeyParseError (List Key)} {keys : List Key},
      key.Writable → (∀ {later}, result = .ok later → ∀ key ∈ later, key.Writable) →
        result.map (key :: ·) = .ok keys → ∀ key ∈ keys, key.Writable := by
    intro key result keys hkey hlater hresult
    cases result with
    | error e => cases hresult
    | ok later =>
      obtain rfl := Except.ok.inj hresult
      exact List.forall_mem_cons.mpr ⟨hkey, hlater rfl⟩
  fun_induction readFrom position text generalizing keys with
  | case1 =>
    obtain rfl := Except.ok.inj h
    exact fun _ hmem => absurd hmem List.not_mem_nil
  | case2 position rest content after hcontent _ key hkey ih =>
    exact hstep (writable_of_brackets hcontent hkey) ih h
  | case3 => cases h
  | case4 position rest _ ih => exact hstep (writable_ofPlain _) ih h
  | case5 position c rest _ ih => exact hstep (writable_ofPlain c) ih h

/-- **Written keys are read back** — the keys that are read from any text, each written out, and all
of it put together: that reads as just these keys. -/
theorem readSequence_join_text (text : String) (keys : List Key)
    (h : readSequence text = .ok keys) :
    readSequence (String.join (keys.map Key.text)) = .ok keys := by
  have htext : (String.join (keys.map Key.text)).toList = keys.flatMap chars := by
    simp [List.flatMap_map, Key.text]
  rw [readSequence, htext]
  exact readFrom_flatMap_chars (writable_of_readFrom h) 0

/-- A literal bracket in front of a bracketed one, a key with a name under every modifier, a dash
behind a dash, a number with sign and zero, and brackets around a blank. -/
theorem readSequence_join_text_of_lookalikes :
    let keys : List Key :=
      [.ofChar '<', ⟨⟨true, true, true⟩, .char '<'⟩, .ofChar 'é', ⟨{ ctrl := true }, .char '-'⟩,
        .ofCode (.function 7), .ofChar '<', .ofChar ' ', .ofChar '>', .ofCode .enter]
    readSequence "<<s-a-c-s-lt>é<c--><f+07>< >\n" = .ok keys ∧
      String.join (keys.map Key.text) = "<lt><c-a-s-lt>é<c-minus><f7><lt><space><gt><ret>" ∧
      readSequence (String.join (keys.map Key.text)) = .ok keys := by
  intro keys
  have hread : readSequence "<<s-a-c-s-lt>é<c--><f+07>< >\n" = .ok keys := by decide +kernel
  exact ⟨hread, by decide +kernel, readSequence_join_text _ keys hread⟩

end Key

end ModalEdit
