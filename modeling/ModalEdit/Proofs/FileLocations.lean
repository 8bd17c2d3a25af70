import ModalEdit.FileLocation
import ModalEdit.Proofs.OptionTexts

/-!
# What a file argument denotes

A file argument is a path, a path and a line, or a path, a line and a column, with colons between
them, and paths may have colons and digits of their own. `Denotes` says which of these an argument
is: as much of its end as can be is read as positions, at most two of them, as long as a path is
left. Reading an argument gives what it denotes and nothing else (`parse_eq_iff`), since a number
has no colon in it, so that the last colon is the only place where one can begin.

Main result: `locations_are_unambiguous`.
-/

namespace ModalEdit

/-! ## Numbers in arguments -/

namespace Text

theorem isDigit_of_digit? {c : Char} {d : Nat} (h : digit? c = some d) : c.isDigit = true := by
  unfold digit? at h
  split at h
  next hc => exact Char.isDigit_iff_toNat.mpr hc
  · cases h

theorem isDigit_of_digitsFrom? {digits : List Char} {acc n : Nat}
    (h : digitsFrom? acc digits = some n) : ∀ c ∈ digits, c.isDigit = true := by
  induction digits generalizing acc with
  | nil => simp
  | cons c digits ih =>
    obtain ⟨d, hd, hrest⟩ := Option.bind_eq_some_iff.mp h
    intro x hx
    rcases List.mem_cons.mp hx with rfl | hx
    · exact isDigit_of_digit? hd
    · exact ih hrest x hx

theorem isDigit_of_digits? {digits : List Char} {n : Nat} (h : digits? digits = some n) :
    ∀ c ∈ digits, c.isDigit = true := by
  cases digits with
  | nil => cases h
  | cons c digits => exact isDigit_of_digitsFrom? h

/-- Numbers are written with digits, and perhaps a sign before them. -/
theorem plus_or_isDigit_of_readNat? {limit n : Nat} {number : List Char}
    (h : readNat? limit number = some n) : ∀ c ∈ number, c = '+' ∨ c.isDigit = true := by
  obtain ⟨hvalue, -⟩ := Option.filter_eq_some_iff.mp h
  intro c hc
  split at hvalue
  next rest =>
    rcases List.mem_cons.mp hc with rfl | hc
    · exact .inl rfl
    · exact .inr (isDigit_of_digits? hvalue c hc)
  next => exact .inr (isDigit_of_digits? hvalue c hc)

theorem le_of_readNat? {limit n : Nat} {number : List Char}
    (h : readNat? limit number = some n) : n ≤ limit := by
  obtain ⟨-, hle⟩ := Option.filter_eq_some_iff.mp h
  simpa using hle

end Text

namespace FileLocation

/-! ## What arguments denote -/

/-- **`Counts number n`** — `number` is a text of the position `n`, which is one less than the
number that stands there. -/
def Counts (number : String) (n : Nat) : Prop :=
  Text.readNat? Text.indexLimit number.toList = some (n + 1)

/-- **`EndsInPosition text`** — `text` is some path, a colon, and a position. -/
def EndsInPosition (text : String) : Prop :=
  ∃ path number n, path ≠ "" ∧ Counts number n ∧ text = path ++ ":" ++ number

/-- **`Denotes arg loc`** — `loc` is what the argument says. -/
inductive Denotes : String → FileLocation → Prop
  | column {path line column : String} {l c : Nat} (hpath : path ≠ "") (hline : Counts line l)
    (hcolumn : Counts column c) :
    Denotes (path ++ ":" ++ line ++ ":" ++ column) ⟨path, some l, some c⟩
  | line {path line : String} {l : Nat} (hpath : path ≠ "") (hline : Counts line l)
    (hnone : ¬EndsInPosition path) :
    Denotes (path ++ ":" ++ line) ⟨path, some l, none⟩
  | plain {arg : String} (hnone : ¬EndsInPosition arg) : Denotes arg ⟨arg, none, none⟩

variable {path number arg : String} {n : Nat} {loc : FileLocation}

theorem readPosition?_eq_some_iff : readPosition? number.toList = some n ↔ Counts number n := by
  unfold readPosition? Counts
  split
  next m hread => simp [hread]
  next hread =>
    refine iff_of_false nofun fun hcounts => ?_
    exact hread n hcounts

theorem Counts.colon_notMem (h : Counts number n) : ':' ∉ number.toList := by
  intro hmem
  rcases Text.plus_or_isDigit_of_readNat? h ':' hmem with hplus | hdigit
  · exact absurd hplus (by decide)
  · exact absurd hdigit (by decide)

/-- The number that stands there fits into the bounds of numbers, and is at least one. -/
theorem Counts.lt_limit (h : Counts number n) : n < Text.indexLimit := Text.le_of_readNat? h

theorem counts_toString {l : Nat} (hpos : 1 ≤ l) (hle : l ≤ Text.indexLimit) :
    Counts (toString l) (l - 1) := by
  have htext : (toString l).toList = Text.decimal l := Nat.toList_repr
  rw [Counts, htext, Text.readNat?_decimal hle]
  congr 1
  omega

/-! ## Reading -/

/-- A position at the end of a text is behind its last colon. -/
theorem splitPosition?_append (hpath : path ≠ "") (h : Counts number n) :
    splitPosition? (path ++ ":" ++ number).toList = some (path.toList, n) := by
  have hlist : (path ++ ":" ++ number).toList = path.toList ++ ':' :: number.toList := by simp
  have hsome : path.toList ≠ [] := by simpa using hpath
  rw [splitPosition?, hlist, Text.splitLast_append h.colon_notMem]
  split
  next heq =>
    obtain ⟨hnil, -⟩ := Prod.mk.inj (Option.some.inj heq)
    exact absurd hnil hsome
  next heq =>
    obtain ⟨rfl, rfl⟩ := Prod.mk.inj (Option.some.inj heq)
    rw [readPosition?_eq_some_iff.mpr h]
    rfl
  next heq => cases heq

theorem exists_of_splitPosition? {before : List Char}
    (h : splitPosition? arg.toList = some (before, n)) :
    String.ofList before ≠ "" ∧ ∃ number, Counts number n ∧
      arg = String.ofList before ++ ":" ++ number := by
  unfold splitPosition? at h
  split at h
  · cases h
  next before' digits hbefore hsplit =>
    obtain ⟨m, hread, heq⟩ := Option.map_eq_some_iff.mp h
    obtain ⟨rfl, rfl⟩ := Prod.mk.inj heq
    have hsome : before' ≠ [] := hbefore
    refine ⟨by simpa using hsome, String.ofList digits, ?_, ?_⟩
    · exact readPosition?_eq_some_iff.mp (by simpa using hread)
    · have hlist := Text.splitLast_eq hsplit
      apply String.toList_injective
      simpa using hlist
  · cases h

theorem splitPosition?_eq_none_iff : splitPosition? arg.toList = none ↔ ¬EndsInPosition arg := by
  constructor
  · rintro hnone ⟨path, number, n, hpath, hcounts, rfl⟩
    rw [splitPosition?_append hpath hcounts] at hnone
    cases hnone
  · intro hends
    cases hsplit : splitPosition? arg.toList with
    | none => rfl
    | some found =>
      obtain ⟨hpath, number, hcounts, harg⟩ := exists_of_splitPosition? hsplit
      exact absurd ⟨_, _, _, hpath, hcounts, harg⟩ hends

/-- What an argument denotes is read from it. -/
theorem Denotes.parse_eq (h : Denotes arg loc) : parse arg = loc := by
  cases h with
  | @column path line column l c hpath hline hcolumn =>
    have hmore : path ++ ":" ++ line ≠ "" := by simp
    rw [parse, splitPosition?_append hmore hcolumn]
    dsimp only
    rw [splitPosition?_append hpath hline]
    simp
  | line hpath hline hnone =>
    rw [parse, splitPosition?_append hpath hline]
    dsimp only
    rw [splitPosition?_eq_none_iff.mpr hnone]
    simp
  | plain hnone => rw [parse, splitPosition?_eq_none_iff.mpr hnone]

/-- Every argument denotes something. -/
theorem exists_denotes (arg : String) : ∃ loc, Denotes arg loc := by
  by_cases hends : EndsInPosition arg
  · obtain ⟨path, number, n, hpath, hcounts, rfl⟩ := hends
    by_cases hmore : EndsInPosition path
    · obtain ⟨shorter, line, l, hshorter, hline, rfl⟩ := hmore
      exact ⟨_, .column hshorter hline hcounts⟩
    · exact ⟨_, .line hpath hcounts hmore⟩
  · exact ⟨_, .plain hends⟩

theorem parse_eq_iff : parse arg = loc ↔ Denotes arg loc := by
  constructor
  · rintro rfl
    obtain ⟨loc, hloc⟩ := exists_denotes arg
    exact hloc.parse_eq ▸ hloc
  · exact Denotes.parse_eq

/-! ## File arguments -/

/-- **File arguments are unambiguous** — a path with a line and a column behind it is read as these,
and so is a path with a line, unless the path itself ends in a position. Every argument is read as
the one location that it denotes, which is all of it: it has a column only if it has a line, and
every number fits. -/
theorem locations_are_unambiguous :
    (∀ (path : String) (l c : Nat), path ≠ "" → 1 ≤ l → l ≤ Text.indexLimit → 1 ≤ c →
      c ≤ Text.indexLimit →
      parse (path ++ ":" ++ toString l ++ ":" ++ toString c) = ⟨path, some (l - 1), some (c - 1)⟩) ∧
      (∀ (path : String) (l : Nat), path ≠ "" → 1 ≤ l → l ≤ Text.indexLimit →
        ¬EndsInPosition path →
        parse (path ++ ":" ++ toString l) = ⟨path, some (l - 1), none⟩) ∧
      ∀ arg, (∀ loc, parse arg = loc ↔ Denotes arg loc) ∧
        ((parse arg).column ≠ none → (parse arg).line ≠ none) ∧
        ∀ n, (parse arg).line = some n ∨ (parse arg).column = some n → n < Text.indexLimit := by
  refine ⟨?_, ?_, ?_⟩
  · intro path l c hpath hl hl' hc hc'
    exact (Denotes.column hpath (counts_toString hl hl') (counts_toString hc hc')).parse_eq
  · intro path l hpath hl hl' hnone
    exact (Denotes.line hpath (counts_toString hl hl') hnone).parse_eq
  · intro arg
    refine ⟨fun loc => parse_eq_iff, ?_⟩
    have hdenotes : Denotes arg (parse arg) := parse_eq_iff.mp rfl
    generalize parse arg = loc at hdenotes
    cases hdenotes with
    | column hpath hline hcolumn =>
      refine ⟨fun _ => nofun, ?_⟩
      rintro n (hn | hn)
      · exact Option.some.inj hn ▸ hline.lt_limit
      · exact Option.some.inj hn ▸ hcolumn.lt_limit
    | line hpath hline hnone =>
      refine ⟨fun _ => nofun, ?_⟩
      rintro n (hn | hn)
      · exact Option.some.inj hn ▸ hline.lt_limit
      · cases hn
    | plain hnone =>
      refine ⟨fun hcolumn => absurd rfl hcolumn, ?_⟩
      rintro n (hn | hn) <;> cases hn

/-- A path that ends in a number itself, one that ends in a zero, and a line with a sign. -/
theorem locations_are_unambiguous_of_lookalikes :
    parse "a:7:10:18446744073709551615" = ⟨"a:7", some 9, some 18446744073709551614⟩ ∧
      ¬EndsInPosition "a:0" ∧ parse "a:0:3" = ⟨"a:0", some 2, none⟩ ∧
      Denotes ":3:+4:x" ⟨":3:+4:x", none, none⟩ ∧ Denotes "a::+05" ⟨"a:", some 4, none⟩ ∧
      (parse "a:7:10:18446744073709551615").line ≠ none ∧
      18446744073709551614 < Text.indexLimit := by
  obtain ⟨hcolumns, hlines, hall⟩ := locations_are_unambiguous
  have hzero : ¬EndsInPosition "a:0" := splitPosition?_eq_none_iff.mp (by decide +kernel)
  have hlast : parse "a:7:10:18446744073709551615" =
      ⟨"a:7", some 9, some 18446744073709551614⟩ :=
    hcolumns "a:7" 10 18446744073709551615 (by decide) (by decide) (by decide) (by decide)
      (by decide)
  obtain ⟨-, hline, hfits⟩ := hall "a:7:10:18446744073709551615"
  rw [hlast] at hline hfits
  refine ⟨hlast, hzero, ?_, ?_, ?_, ?_, hfits _ (.inr rfl)⟩
  · exact hlines "a:0" 3 (by decide) (by decide) (by decide) hzero
  · exact ((hall ":3:+4:x").1 _).mp (by decide +kernel)
  · exact ((hall "a::+05").1 _).mp (by decide +kernel)
  · exact hlast ▸ hline (Option.some_ne_none _)

end FileLocation

end ModalEdit
