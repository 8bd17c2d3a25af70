import ModalEdit.Pattern
import ModalEdit.Proofs.PatternMatches
import ModalEdit.Proofs.PatternSuffixes

/-!
# Patterns are written as usual

The patterns of this library have the notation that regular expressions usually have
(`Pattern.standard`), for what reads one construct does not depend on what follows
(`local_readConstruct`). So its engine is a documented one (`Pattern.documented`): it compiles what
can be read, has no name twice and is within its limits, and finds what the tree of the pattern
matches (`Tree.isMatch_iff`).
-/

namespace ModalEdit.Pattern

open Text

variable {flags : Flags} {text rest tail more : List Char} {c : Char} {construct : Construct}

/-! ## What kind of construct is read -/

/-- **`Adds construct`** — the construct adds something to the group that is read. -/
def Adds : Construct → Prop
  | .closing | .blank | .comment => False
  | .item _ | .repetition _ | .bar | .opening _ _ | .setting _ => True

/-- **`Yields x`** — what is read, if anything is, adds something. -/
def Yields (x : Except PatternError (Construct × List Char)) : Prop :=
  ∀ construct rest, x = .ok (construct, rest) → Adds construct

namespace Yields

theorem ok (h : Adds construct) (rest : List Char) : Yields (.ok (construct, rest)) := by
  rintro _ _ ⟨⟩
  exact h

theorem error (e : PatternError) : Yields (.error e) := by
  rintro _ _ ⟨⟩

theorem bind {α : Type} {x : Except PatternError α}
    {k : α → Except PatternError (Construct × List Char)} (h : ∀ a, Yields (k a)) :
    Yields (x >>= k) := by
  cases x with
  | error e => exact error e
  | ok a => exact h a

theorem value {v : Except PatternError Construct}
    (h : ∀ construct, v = .ok construct → Adds construct) (rest : List Char) :
    Yields (v.map (·, rest)) := by
  cases v with
  | error e => exact error e
  | ok construct => exact ok (h construct rfl) rest

theorem map {α : Type} {x : Except PatternError α} {k : α → Construct × List Char}
    (h : ∀ a, Adds (k a).1) : Yields (x.map k) := by
  cases x with
  | error e => exact error e
  | ok a => exact ok (h a) _

end Yields

theorem yields_readNamed (flags : Flags) (text : List Char) : Yields (readNamed flags text) := by
  refine Yields.bind fun read => .value (fun construct h => ?_) _
  unfold namedGroup at h
  split at h <;> cases h
  trivial

theorem yields_readFlagged (flags : Flags) (text : List Char) :
    Yields (readFlagged flags text) := by
  refine Yields.bind fun read => .value (fun construct h => ?_) _
  unfold ofFlags at h
  split at h <;> cases h <;> trivial

theorem yields_readOpening (flags : Flags) (text : List Char) :
    Yields (readOpening flags text) := by
  unfold readOpening
  split
  · unfold readSpecial
    split
    · split
      · exact .error _
      · exact yields_readNamed _ _
    split
    · exact yields_readNamed _ _
    split
    · exact .error _
    · exact yields_readFlagged _ _
  · exact .ok (by trivial) _

theorem yields_readGreed (flags : Flags) (bounds : Bool → Regex.Operator) (spaced : Bool)
    (text : List Char) : Yields (readGreed flags bounds spaced text) := by
  unfold readGreed
  split <;> exact .ok (by trivial) _

theorem yields_readRange (flags : Flags) (low : Nat) (text : List Char) :
    Yields (readRange flags low text) := by
  unfold readRange
  split
  · exact yields_readGreed _ _ _ _
  refine .bind fun read => ?_
  dsimp only
  split
  · split
    · exact yields_readGreed _ _ _ _
    · exact .error _
  · exact .error _

theorem yields_readCounts (flags : Flags) (text : List Char) : Yields (readCounts flags text) := by
  refine .bind fun read => ?_
  dsimp only
  split
  · exact yields_readGreed _ _ _ _
  split
  · exact yields_readRange _ _ _
  · exact .error _

/-- Only a parenthesis closes anything. -/
theorem yields_readConstruct (hc : c ≠ ')') (flags : Flags) (rest : List Char) :
    Yields (readConstruct flags c rest) := by
  unfold readConstruct
  split
  · exact yields_readOpening _ _
  · exact absurd rfl hc
  · exact .ok (by trivial) _
  · exact .map fun _ => trivial
  · exact yields_readGreed _ _ _ _
  · exact yields_readGreed _ _ _ _
  · exact yields_readGreed _ _ _ _
  · exact yields_readCounts _ _
  · exact .map fun _ => trivial
  · split
    · exact .ok (by trivial) _
    · exact .error _
  · exact .ok (by trivial) _
  · exact .ok (by trivial) _
  · exact .ok (by trivial) _

/-! ## The construct at the beginning of a text -/

/-- What stands at the beginning of a text: something blank, a comment or a construct. -/
theorem first?_cons (flags : Flags) (c : Char) :
    (∀ text, first? flags (c :: text) = some (.blank, text)) ∨
      (∀ text, first? flags (c :: text) = some (skipComment text)) ∨
      ∀ text, first? flags (c :: text) = (readConstruct flags c text).toOption := by
  by_cases hblank : (flags.verbose && isBlank c) = true
  · exact .inl fun text => if_pos hblank
  by_cases hcomment : (flags.verbose && decide (c = '#')) = true
  · exact .inr (.inl fun text => (if_neg hblank).trans (if_pos hcomment))
  · exact .inr (.inr fun text => (if_neg hblank).trans (if_neg hcomment))

theorem first?_of_not_blank (hblank : isBlank c = false) (hc : c ≠ '#') :
    first? flags (c :: tail) = (readConstruct flags c tail).toOption := by
  simp [first?, hblank, hc]

theorem readConstruct_of_toOption
    (h : (readConstruct flags c tail).toOption = some (construct, rest)) :
    readConstruct flags c tail = .ok (construct, rest) := by
  cases hread : readConstruct flags c tail <;> rw [hread] at h <;> cases h
  rfl

theorem suffix_of_skipComment (h : skipComment text = (construct, rest)) : rest <:+ text := by
  unfold skipComment at h
  split at h
  next before after hsplit =>
    cases h
    exact ⟨before ++ ['\n'], by rw [splitFirst_eq hsplit]; simp⟩
  next =>
    cases h
    exact List.nil_suffix

theorem suffix_of_first? (h : first? flags (c :: tail) = some (construct, rest)) :
    rest <:+ tail := by
  rcases first?_cons flags c with hblank | hcomment | hread
  · cases (hblank tail).symm.trans h
    exact List.suffix_refl _
  · exact suffix_of_skipComment (Option.some.inj ((hcomment tail).symm.trans h))
  · exact (local_readConstruct flags c).suffix
      (readConstruct_of_toOption ((hread tail).symm.trans h))

theorem adds_of_first? (hfirst : first? flags (c :: tail) = (readConstruct flags c tail).toOption)
    (hc : c ≠ ')') (h : first? flags (c :: tail) = some (construct, rest)) : Adds construct :=
  yields_readConstruct hc flags tail construct rest
    (readConstruct_of_toOption (hfirst.symm.trans h))

theorem first?_closing_iff : first? flags text = some (.closing, rest) ↔ text = ')' :: rest := by
  constructor
  · intro h
    cases text with
    | nil => cases h
    | cons c tail =>
      rcases first?_cons flags c with hblank | hcomment | hread
      · cases (hblank tail).symm.trans h
      · have hskip := Option.some.inj ((hcomment tail).symm.trans h)
        unfold skipComment at hskip
        split at hskip <;> cases hskip
      · by_cases hc : c = ')'
        · subst hc
          cases (hread tail).symm.trans h
          rfl
        · exact (adds_of_first? (hread tail) hc h).elim
  · rintro rfl
    exact first?_of_not_blank (by decide) (by decide)

theorem first?_opening (flags : Flags) (rest : List Char) :
    first? flags ('(' :: '?' :: ':' :: rest) = some (.opening none flags, rest) := by
  have hskip : flags.skip false ('?' :: ':' :: rest) = '?' :: ':' :: rest :=
    Flags.skip_of_not_blank (by decide) (by decide) _
  rw [first?_of_not_blank (by decide) (by decide)]
  show (readOpening flags ('?' :: ':' :: rest)).toOption = _
  unfold readOpening
  rw [hskip]
  rfl

theorem first?_comment (h : first? flags text = some (.comment, rest)) (hline : '\n' ∉ more) :
    first? flags (text ++ more) = some (.comment, []) := by
  cases text with
  | nil => cases h
  | cons c tail =>
    rcases first?_cons flags c with hblank | hcomment | hread
    · cases (hblank tail).symm.trans h
    · have hskip := Option.some.inj ((hcomment tail).symm.trans h)
      show first? flags (c :: (tail ++ more)) = _
      rw [hcomment]
      unfold skipComment at hskip ⊢
      rw [splitFirst_append_more, splitFirst_of_notMem hline]
      cases hsplit : splitFirst '\n' tail with
      | none => rfl
      | some parts =>
        rw [hsplit] at hskip
        cases hskip
    · by_cases hc : c = ')'
      · subst hc
        cases (hread tail).symm.trans h
      · exact (adds_of_first? (hread tail) hc h).elim

theorem first?_ends (h : first? flags text = some (construct, rest))
    (hcomment : construct ≠ .comment) (hline : '\n' ∉ more) :
    first? flags (text ++ ')' :: more) = some (construct, rest ++ ')' :: more) := by
  cases text with
  | nil => cases h
  | cons c tail =>
    show first? flags (c :: (tail ++ ')' :: more)) = _
    rcases first?_cons flags c with hblank | hskip | hread
    · cases (hblank tail).symm.trans h
      exact hblank _
    · have htail := Option.some.inj ((hskip tail).symm.trans h)
      rw [hskip]
      unfold skipComment at htail ⊢
      cases hsplit : splitFirst '\n' tail with
      | none =>
        rw [hsplit] at htail
        cases htail
        exact absurd rfl hcomment
      | some parts =>
        rw [hsplit] at htail
        cases htail
        simp [splitFirst_append_more, hsplit]
    · have hagree := local_readConstruct flags c tail _ (.parenthesis more hline)
      rw [hread, hagree.extend construct rest
        (readConstruct_of_toOption ((hread tail).symm.trans h))]
      rfl

theorem first?_takes (h : first? flags text = none) (hline : '\n' ∉ more)
    (hlater : first? flags (text ++ ')' :: more) = some (construct, rest)) : rest <:+ more := by
  cases text with
  | nil =>
    cases (first?_closing_iff.mpr rfl).symm.trans hlater
    exact List.suffix_refl _
  | cons c tail =>
    rcases first?_cons flags c with hblank | hskip | hread
    · cases (hblank tail).symm.trans h
    · cases (hskip tail).symm.trans h
    · have hlater' := readConstruct_of_toOption ((hread _).symm.trans hlater)
      cases htail : readConstruct flags c tail with
      | ok read =>
        rw [hread, htail] at h
        cases h
      | error e =>
        have hmore : Stops (')' :: more) := .parenthesis more hline
        have hlt :=
          (local_readConstruct flags c tail _ hmore).overrun e construct rest htail hlater'
        rw [List.length_cons] at hlt
        refine List.suffix_of_suffix_length_le ((local_readConstruct flags c).suffix hlater')
          ⟨tail ++ [')'], ?_⟩ (Nat.le_of_lt_succ hlt)
        simp

/-! ## The engine -/

/-- What `^` and `$` stand for, and the ways in which constructs end. -/
def standard : lexer.Standard where
  start flags := .assertion (if flags.multiLine then .lineStart flags.crlf else .textStart)
  stop flags := .assertion (if flags.multiLine then .lineEnd flags.crlf else .textEnd)
  unnamed := none
  leaves {flags text rest construct} h := by
    cases text with
    | nil => cases h
    | cons c tail =>
      have hsuffix := suffix_of_first? h
      exact ⟨hsuffix.trans (List.suffix_cons c tail), Nat.lt_succ_of_le hsuffix.length_le⟩
  caret flags rest := first?_of_not_blank (by decide) (by decide)
  dollar flags rest := first?_of_not_blank (by decide) (by decide)
  opening := first?_opening
  closing_iff := first?_closing_iff
  comment := first?_comment
  ends := first?_ends
  takes := first?_takes

theorem spans_textStart {text : List Char} {i k : Nat} :
    Item.Spans (.assertion .textStart) text i k ↔ i = 0 ∧ k = 0 := by
  simp only [Item.Spans, Assertion.holds]
  constructor
  · rintro ⟨hi, hstart, rfl⟩
    by_contra hne
    have hne' : k ≠ 0 := fun h => hne ⟨h, h⟩
    simp [hne'] at hstart
    omega
  · rintro ⟨rfl, rfl⟩
    exact ⟨Nat.zero_le _, rfl, rfl⟩

theorem spans_textEnd {text : List Char} {i k : Nat} :
    Item.Spans (.assertion .textEnd) text i k ↔ i = text.length ∧ k = text.length := by
  simp only [Item.Spans, Assertion.holds]
  constructor
  · rintro ⟨hi, hstop, rfl⟩
    have hle : text.length ≤ k := by simpa using hstop
    exact ⟨le_antisymm hi hle, le_antisymm hi hle⟩
  · rintro ⟨rfl, rfl⟩
    exact ⟨le_rfl, by simp, rfl⟩

theorem compile?_eq_some_iff {pattern : String} {p : Pattern} :
    compile? pattern = some p ↔ lexer.read pattern.toList = .ok p.tree ∧
      (Tree.names p.tree).Nodup ∧ p.tree.fits = true ∧ p.text = pattern := by
  obtain ⟨text, tree⟩ := p
  unfold compile?
  cases lexer.read pattern.toList with
  | error e => simp
  | ok read =>
    dsimp only
    split
    next h =>
      constructor
      · rintro ⟨⟩
        exact ⟨rfl, h.1, h.2, rfl⟩
      · rintro ⟨hread, -, -, rfl⟩
        cases hread
        rfl
    next h =>
      constructor
      · rintro ⟨⟩
      · rintro ⟨hread, hnames, hfits, -⟩
        cases hread
        exact absurd ⟨hnames, hfits⟩ h

/-- **The engine** — it does what the documentation of engines says. -/
def documented : Regex.Documented Pattern Flags Item GroupKind where
  lexer := lexer
  standard := standard
  name? := id
  name?_unnamed := rfl
  spans := Item.Spans
  spans_start := spans_textStart
  spans_stop := spans_textEnd
  fits tree := Tree.fits tree = true
  tree := Pattern.tree
  compiles {pattern whole} := by
    constructor
    · rintro ⟨p, hp, rfl⟩
      obtain ⟨hread, hnames, hfits, -⟩ := compile?_eq_some_iff.mp hp
      exact ⟨hread, hnames, hfits⟩
    · rintro ⟨hread, hnames, hfits⟩
      exact ⟨⟨pattern, whole⟩, compile?_eq_some_iff.mpr ⟨hread, hnames, hfits, rfl⟩, rfl⟩
  finds := Tree.isMatch_iff

end ModalEdit.Pattern
