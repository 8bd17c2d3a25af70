import ModalEdit.Proofs.OptionAssignments

/-!
# The text of an option value

A value that an option can come to hold is written so that it is read back: numbers without blanks
and in bounds, the elements of a list with their separators escaped. The one list that its text does
not tell is the list of one empty text, written like the empty list. No text is read as that list
(`split_ne_blank`), and no sum makes it, so `Writable` is kept by everything that gives an option its
value, and a writable value is what its text is read as (`parse_text`).
-/

namespace ModalEdit

/-! ## Numbers -/

namespace Text

theorem trim_eq_self {text : List Char} (h : ∀ c ∈ text, isBlank c = false) : trim text = text := by
  have hdrop : ∀ cs : List Char, (∀ c ∈ cs, isBlank c = false) → cs.dropWhile isBlank = cs := by
    intro cs hcs
    cases cs with
    | nil => rfl
    | cons c cs => simp [hcs c List.mem_cons_self]
  have hreverse : ∀ c ∈ text.reverse, isBlank c = false := fun c hc => h c (List.mem_reverse.mp hc)
  rw [trim, hdrop text h, hdrop _ hreverse, List.reverse_reverse]

theorem isBlank_of_isDigit {c : Char} (h : c.isDigit = true) : isBlank c = false := by
  have hc : 48 ≤ c.toNat ∧ c.toNat ≤ 57 := Char.isDigit_iff_toNat.mp h
  simp [isBlank, blankRanges]
  omega

theorem digit?_of_isDigit {c : Char} (h : c.isDigit = true) :
    digit? c = some (c.toNat - '0'.toNat) := by
  exact if_pos (Char.isDigit_iff_toNat.mp h)

theorem digitsFrom?_eq {digits : List Char} (h : ∀ c ∈ digits, c.isDigit = true) (acc : Nat) :
    digitsFrom? acc digits = some (Nat.ofDigitChars 10 digits acc) := by
  induction digits generalizing acc with
  | nil => rfl
  | cons c digits ih =>
    rw [digitsFrom?, digit?_of_isDigit (h c List.mem_cons_self), Option.bind_some,
      ih fun d hd => h d (List.mem_cons_of_mem c hd), Nat.ofDigitChars_cons]

/-- The digits of a number. -/
abbrev decimal (n : Nat) : List Char := Nat.toDigits 10 n

theorem isDigit_of_mem_decimal {n : Nat} {c : Char} (h : c ∈ decimal n) : c.isDigit = true :=
  Nat.isDigit_of_mem_toDigits (by decide) (by decide) h

theorem notMem_decimal {c : Char} (hc : c.isDigit = false) (n : Nat) : c ∉ decimal n := by
  intro hmem
  rw [isDigit_of_mem_decimal hmem] at hc
  cases hc

theorem digits?_decimal (n : Nat) : digits? (decimal n) = some n := by
  have hvalue := digitsFrom?_eq (fun _ => isDigit_of_mem_decimal (n := n)) 0
  rw [Nat.ofDigitChars_toDigits (by decide) (by decide)] at hvalue
  cases hdigits : decimal n with
  | nil => exact absurd hdigits Nat.toDigits_ne_nil
  | cons c digits => rwa [hdigits] at hvalue

theorem trim_decimal (n : Nat) : trim (decimal n) = decimal n :=
  trim_eq_self fun _ hc => isBlank_of_isDigit (isDigit_of_mem_decimal hc)

theorem readNat?_decimal {limit n : Nat} (h : n ≤ limit) : readNat? limit (decimal n) = some n := by
  have hplus : ∀ rest, decimal n ≠ '+' :: rest := fun rest hdigits =>
    notMem_decimal (c := '+') rfl n (hdigits ▸ List.mem_cons_self)
  unfold readNat?
  split
  next rest hdigits => exact absurd hdigits (hplus rest)
  next => simp [digits?_decimal, h]

end Text

namespace OptionValue

/-- **`IntegerFits n`** — an option can hold the number. -/
def IntegerFits (n : Int) : Prop := Text.integerMin ≤ n ∧ n ≤ Text.integerMax

theorem integerFits_of_readInt? {text : String} {n : Int} (h : readInt? text = some n) :
    IntegerFits n := by
  have hbounds := (Option.filter_eq_some_iff.mp h).2
  simpa [IntegerFits] using hbounds

theorem filter_of_integerFits {n : Int} (h : IntegerFits n) :
    (some n).filter (fun n => Text.integerMin ≤ n && n ≤ Text.integerMax) = some n :=
  Option.filter_eq_some_iff.mpr ⟨rfl, by simpa [IntegerFits] using h⟩

theorem readInt?_toString {n : Int} (h : IntegerFits n) : readInt? (toString n) = some n := by
  cases n with
  | ofNat m =>
    have htext : (toString (Int.ofNat m)).toList = Text.decimal m := Nat.toList_repr
    -- the first digit is no sign, so the number is read as one without
    have hsign : ∀ sign, sign.isDigit = false → ∀ rest, Text.decimal m ≠ sign :: rest :=
      fun sign hsign rest hdigits => Text.notMem_decimal hsign m (hdigits ▸ List.mem_cons_self)
    rw [readInt?, htext, Text.trim_decimal]
    unfold Text.readInt?
    split
    next rest hdigits => exact absurd hdigits (hsign '+' rfl rest)
    next rest hdigits => exact absurd hdigits (hsign '-' rfl rest)
    next =>
      rw [Text.digits?_decimal]
      exact filter_of_integerFits h
  | negSucc m =>
    have htext : (toString (Int.negSucc m)).toList = '-' :: Text.decimal (m + 1) := by
      show ("-" ++ (m + 1).repr).toList = _
      rw [String.toList_append, Nat.toList_repr]
      rfl
    have hblank : ∀ c ∈ '-' :: Text.decimal (m + 1), Text.isBlank c = false := by
      intro c hc
      rcases List.mem_cons.mp hc with rfl | hdigit
      · rfl
      · exact Text.isBlank_of_isDigit (Text.isDigit_of_mem_decimal hdigit)
    rw [readInt?, htext, Text.trim_eq_self hblank]
    simp only [Text.readInt?, Text.digits?_decimal]
    exact filter_of_integerFits h

end OptionValue

/-! ## Lists -/

namespace ListText

theorem splitFrom_escaped {c : Char} (h : isSpecial c = true) (element rest : List Char) :
    splitFrom element ('\\' :: c :: rest) = splitFrom (c :: element) rest := by
  simp [splitFrom, h]

theorem splitFrom_plain {c : Char} (h : isSpecial c = false) (element rest : List Char) :
    splitFrom element (c :: rest) = splitFrom (c :: element) rest := by
  have hc : c ≠ ':' ∧ c ≠ '\\' := by simpa [isSpecial] using h
  cases rest <;> simp [splitFrom, hc.1, hc.2]

theorem splitFrom_separator (element rest : List Char) :
    splitFrom element (':' :: rest) = element.reverse :: splitFrom [] rest := by
  cases rest <;> simp [splitFrom]

/-- An escaped element is read as what it was. -/
theorem splitFrom_escape (item element rest : List Char) :
    splitFrom element (escape item ++ rest) = splitFrom (item.reverse ++ element) rest := by
  induction item generalizing element with
  | nil => rfl
  | cons c item ih =>
    have hreverse : (c :: item).reverse ++ element = item.reverse ++ c :: element := by simp
    rw [hreverse, ← ih, escape]
    cases hspecial : isSpecial c with
    | true => exact splitFrom_escaped hspecial element _
    | false => exact splitFrom_plain hspecial element _

theorem splitFrom_intercalate {items : List (List Char)} (h : items ≠ []) :
    splitFrom [] ([':'].intercalate (items.map escape)) = items := by
  induction items with
  | nil => exact absurd rfl h
  | cons item items ih =>
    cases items with
    | nil =>
      have hitem := splitFrom_escape item [] []
      simpa [splitFrom] using hitem
    | cons next items =>
      rw [List.map_cons, List.map_cons, List.intercalate_cons_cons, List.append_assoc,
        splitFrom_escape, List.append_nil, List.singleton_append, splitFrom_separator,
        List.reverse_reverse, ← List.map_cons, ih (List.cons_ne_nil _ _)]

theorem toList_join (items : List String) :
    (join items).toList = [':'].intercalate ((items.map String.toList).map escape) := by
  simp [join, String.toList_intercalate, Function.comp_def]

/-- **Lists** — a list is read back from its text, unless it is the list of one empty text. -/
theorem split_join {items : List String} (h : items ≠ [""]) : split (join items) = items := by
  rcases eq_or_ne items [] with rfl | hne
  · rfl
  have hread : splitFrom [] ([':'].intercalate ((items.map String.toList).map escape)) =
      items.map String.toList := splitFrom_intercalate (by simpa using hne)
  rw [← toList_join] at hread
  -- the empty text is read as the empty list, so it must not be the text of any other
  have hfilled : ¬ (join items).isEmpty = true := by
    intro hempty
    rw [String.isEmpty_iff.mp hempty] at hread
    have hblank : items.map String.toList = [""].map String.toList := hread.symm
    exact h (List.map_injective_iff.mpr (fun _ _ => String.toList_injective) hblank)
  rw [split, if_neg hfilled, hread]
  simp

theorem splitFrom_ne_nil (element text : List Char) : splitFrom element text ≠ [] := by
  fun_induction splitFrom element text <;> simp_all

/-- By the recursion: an element with a character is not empty, and a separator makes two. -/
theorem splitFrom_eq_blank {element text : List Char} (h : splitFrom element text = [[]]) :
    element = [] ∧ text = [] := by
  fun_induction splitFrom element text <;> simp_all [splitFrom_ne_nil]

theorem split_ne_blank (text : String) : split text ≠ [""] := by
  intro h
  unfold split at h
  split at h
  · cases h
  next hfilled =>
    have hread : splitFrom [] text.toList = [[]] := by
      simpa [List.map_eq_cons_iff] using h
    exact hfilled (String.isEmpty_iff.mpr (String.toList_eq_nil_iff.mp (splitFrom_eq_blank hread).2))

end ListText

/-! ## Values -/

namespace OptionValue

theorem toString_ne_empty {n : Int} (h : IntegerFits n) : toString n ≠ "" := by
  intro hempty
  have hread := readInt?_toString h
  rw [hempty] at hread
  cases hread

theorem readLineFlag?_text {item : Nat × String} (h : item.1 ≤ Text.indexLimit) :
    readLineFlag? (lineFlagText item) = some item := by
  have htext : (lineFlagText item).toList = Text.decimal item.1 ++ '|' :: item.2.toList := by
    show (toString item.1 ++ "|" ++ item.2).toList = _
    simp [Nat.toString_eq_repr]
  unfold readLineFlag?
  rw [htext, Text.splitFirst_append (Text.notMem_decimal rfl item.1)]
  simp [Text.trim_decimal, Text.readNat?_decimal h]

theorem line_le_of_readLineFlag? {text : String} {item : Nat × String}
    (h : readLineFlag? text = some item) : item.1 ≤ Text.indexLimit := by
  unfold readLineFlag? at h
  obtain ⟨⟨digits, flag⟩, -, h⟩ := Option.bind_eq_some_iff.mp h
  obtain ⟨line, hline, h⟩ := Option.bind_eq_some_iff.mp h
  obtain rfl := Option.some.inj h
  simpa using (Option.filter_eq_some_iff.mp hline).2

theorem lineFlagText_ne_empty {item : Nat × String} (h : item.1 ≤ Text.indexLimit) :
    lineFlagText item ≠ "" := by
  intro hempty
  have hread := readLineFlag?_text h
  rw [hempty] at hread
  cases hread

section Elements

variable {α : Type} {read : String → Option α} {write : α → String} {items : List α}

/-- What is read element by element is the reading of some element each. -/
theorem exists_of_mapM {texts : List String} (h : texts.mapM read = some items) :
    ∀ item ∈ items, ∃ text, read text = some item := by
  induction texts generalizing items with
  | nil =>
    obtain rfl : [] = items := Option.some.inj h
    simp
  | cons text texts ih =>
    rw [List.mapM_cons] at h
    obtain ⟨first, hfirst, h⟩ := Option.bind_eq_some_iff.mp h
    obtain ⟨rest, hrest, h⟩ := Option.bind_eq_some_iff.mp h
    obtain rfl := Option.some.inj h
    exact List.forall_mem_cons.mpr ⟨⟨text, hfirst⟩, ih hrest⟩

theorem mapM_map (h : ∀ item ∈ items, read (write item) = some item) :
    (items.map write).mapM read = some items := by
  induction items with
  | nil => rfl
  | cons item items ih =>
    obtain ⟨hitem, hitems⟩ := List.forall_mem_cons.mp h
    rw [List.map_cons, List.mapM_cons, hitem, ih hitems]
    rfl

/-- A list whose elements are read back, and none of which is written as nothing, is read back. -/
theorem mapM_split_join (hread : ∀ item ∈ items, read (write item) = some item)
    (hwrite : ∀ item ∈ items, write item ≠ "") :
    (ListText.split (ListText.join (items.map write))).mapM read = some items := by
  have hblank : items.map write ≠ [""] := by
    intro hblank
    obtain ⟨item, hitem, hempty⟩ := List.mem_map.mp (hblank ▸ List.mem_singleton_self "")
    exact hwrite item hitem hempty
  rw [ListText.split_join hblank, mapM_map hread]

end Elements

/-- **`value.Writable`** — the values that their text tells. -/
inductive Writable : OptionValue → Prop
  | int {n : Int} (h : IntegerFits n) : Writable (int n)
  | bool (b : Bool) : Writable (bool b)
  | str (s : String) : Writable (str s)
  | regex {pattern : String} (h : (Pattern.compile? pattern).isSome) : Writable (regex pattern)
  | intList {items : List Int} (h : ∀ n ∈ items, IntegerFits n) : Writable (intList items)
  | strList {items : List String} (h : items ≠ [""]) : Writable (strList items)
  | lineFlagList {items : List (Nat × String)} (h : ∀ item ∈ items, item.1 ≤ Text.indexLimit) :
    Writable (lineFlagList items)

namespace Writable

variable {value addend sum : OptionValue} {type : OptionType} {text : String}

theorem read?_text (h : value.Writable) : read? value.type value.text = some value := by
  cases h with
  | int hn => exact congrArg (Option.map OptionValue.int) (readInt?_toString hn)
  | bool b => cases b <;> rfl
  | str s => rfl
  | regex hpattern =>
    obtain ⟨pattern, hpattern⟩ := Option.isSome_iff_exists.mp hpattern
    simp [read?, OptionValue.type, OptionValue.text, hpattern]
  | intList hitems =>
    simp [read?, OptionValue.type, OptionValue.text,
      mapM_split_join (fun n hn => readInt?_toString (hitems n hn))
        fun n hn => toString_ne_empty (hitems n hn)]
  | strList hitems => simp [read?, OptionValue.type, OptionValue.text, ListText.split_join hitems]
  | lineFlagList hitems =>
    simp [read?, OptionValue.type, OptionValue.text,
      mapM_split_join (fun item hitem => readLineFlag?_text (hitems item hitem))
        fun item hitem => lineFlagText_ne_empty (hitems item hitem)]

theorem of_read? (h : read? type text = some value) : value.Writable := by
  cases type with
  | int =>
    obtain ⟨n, hn, rfl⟩ := Option.map_eq_some_iff.mp h
    exact .int (integerFits_of_readInt? hn)
  | bool =>
    obtain ⟨b, -, rfl⟩ := Option.map_eq_some_iff.mp h
    exact .bool b
  | str =>
    obtain rfl := Option.some.inj h
    exact .str text
  | regex =>
    obtain ⟨pattern, hpattern, rfl⟩ := Option.map_eq_some_iff.mp h
    exact .regex (hpattern ▸ rfl)
  | intList =>
    obtain ⟨items, hitems, rfl⟩ := Option.map_eq_some_iff.mp h
    refine .intList fun n hn => ?_
    obtain ⟨element, helement⟩ := exists_of_mapM hitems n hn
    exact integerFits_of_readInt? helement
  | strList =>
    obtain rfl := Option.some.inj h
    exact .strList (ListText.split_ne_blank text)
  | lineFlagList =>
    obtain ⟨items, hitems, rfl⟩ := Option.map_eq_some_iff.mp h
    refine .lineFlagList fun item hitem => ?_
    obtain ⟨element, helement⟩ := exists_of_mapM hitems item hitem
    exact line_le_of_readLineFlag? helement

theorem default (type : OptionType) : type.default.Writable := by
  cases type with
  | int => exact .int ⟨by decide, by decide⟩
  | bool => exact .bool false
  | str => exact .str ""
  | regex => exact .regex (by decide +kernel)
  | intList => exact .intList (by simp)
  | strList => exact .strList (by simp)
  | lineFlagList => exact .lineFlagList (by simp)

theorem integerFits_addInt (a b : Int) : IntegerFits (addInt a b) := by
  simp only [IntegerFits, addInt, Text.integerMin, Text.integerMax]
  omega

/-- Two lists that are not that of one empty text do not make it together. -/
theorem add? (hvalue : value.Writable) (haddend : addend.Writable)
    (h : value.add? addend = some sum) : sum.Writable := by
  cases hvalue with
  | bool | str | regex => cases haddend <;> cases h
  | int =>
    cases haddend <;> cases h
    exact .int (integerFits_addInt _ _)
  | intList hitems =>
    cases haddend <;> cases h
    next others hothers => exact .intList (List.forall_mem_append.mpr ⟨hitems, hothers⟩)
  | strList hitems =>
    cases haddend <;> cases h
    next others hothers =>
      -- a sum of one element has an empty summand, and the other one is the sum
      refine .strList fun hblank => ?_
      rcases List.append_eq_singleton_iff.mp hblank with ⟨-, hothers'⟩ | ⟨hitems', -⟩
      · exact hothers hothers'
      · exact hitems hitems'
  | lineFlagList hitems =>
    cases haddend <;> cases h
    next others hothers => exact .lineFlagList (List.forall_mem_append.mpr ⟨hitems, hothers⟩)

end Writable

/-- **`Obtained type value`** — an option of the type can come to hold the value. -/
inductive Obtained : OptionType → OptionValue → Prop
  | parsed {type : OptionType} {value : OptionValue} (name text : String)
    (h : parse name type text = .ok value) : Obtained type value
  | default (type : OptionType) : Obtained type type.default
  | added {type : OptionType} {value sum : OptionValue} (name text : String)
    (hvalue : Obtained type value) (h : value.added name text = .ok sum) : Obtained type sum

theorem type_default (type : OptionType) : type.default.type = type := by
  cases type <;> rfl

theorem Obtained.type_eq {type : OptionType} {value : OptionValue} (h : Obtained type value) :
    value.type = type := by
  induction h with
  | parsed _ _ h => exact type_of_read? (parse_eq_ok.mp h)
  | default => exact type_default _
  | added _ _ _ h ih =>
    obtain ⟨addend, -, hsum⟩ := added_eq_ok.mp h
    exact (type_of_add? hsum).trans ih

theorem Obtained.writable {type : OptionType} {value : OptionValue} (h : Obtained type value) :
    value.Writable := by
  induction h with
  | parsed _ _ h => exact .of_read? (parse_eq_ok.mp h)
  | default => exact .default _
  | added _ _ _ h ih =>
    obtain ⟨addend, hread, hsum⟩ := added_eq_ok.mp h
    exact ih.add? (.of_read? hread) hsum

end OptionValue

/-- **Nothing is lost in a text** — a value that an option of a type can come to hold is what its
text is read as; so to set an option of that type to the text gives it the value. -/
theorem OptionValue.parse_text {type : OptionType} {value : OptionValue}
    (h : OptionValue.Obtained type value) :
    (∀ name, OptionValue.parse name type value.text = .ok value) ∧
      ∀ (store : OptionStore) (name : String) (inherited : Option OptionValue) (base : OptionValue),
        store.base name inherited = .ok base → base.type = type →
          store.setText name value.text inherited = .ok (value, store.set name value) := by
  have hparse : ∀ name, parse name type value.text = .ok value := fun name =>
    parse_eq_ok.mpr (h.type_eq ▸ h.writable.read?_text)
  refine ⟨hparse, fun store name inherited base hbase htype => ?_⟩
  have hread : read? base.type value.text = some value := parse_eq_ok.mp (htype ▸ hparse name)
  exact OptionStore.setText_eq_ok.mpr ⟨base, hbase, ⟨value, hread, rfl⟩, rfl⟩

/-- Two empty elements, to which elements with separators are added. -/
theorem OptionValue.parse_text_separators :
    OptionValue.Obtained .strList (.strList ["", "", "a:b", "\\"]) ∧
      (OptionValue.strList ["", "", "a:b", "\\"]).text = "::a\\:b:\\\\" ∧
      OptionValue.parse "paths" .strList "::a\\:b:\\\\" =
        .ok (.strList ["", "", "a:b", "\\"]) := by
  have hblank : OptionType.strList.default.added "paths" ":" = .ok (.strList ["", ""]) := by
    decide +kernel
  have hvalue : OptionValue.Obtained .strList (.strList ["", "", "a:b", "\\"]) :=
    .added "paths" "a\\:b:\\\\" (.added "paths" ":" (.default .strList) hblank)
      (by decide +kernel)
  exact ⟨hvalue, by decide +kernel, (OptionValue.parse_text hvalue).1 "paths"⟩

end ModalEdit
