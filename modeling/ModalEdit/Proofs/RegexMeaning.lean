import Mathlib.Data.List.Nodup
import ModalEdit.Regex.Engine
import ModalEdit.Regex.Reader

/-!
# What regular expressions mean

`tree.Matches spans text i k` says what it is for a tree to match a text from `i` to `k`, by the
ways in which trees are put together; `spans` says it for the items.

What is known of an engine is what its documentation says. `Documented` collects as much of this as
tells what becomes of a pattern between anchors, and leaves everything else open: which flags, items
and kinds of groups there are, what the items match, how constructs are written, and how large a
pattern may be.
-/

namespace ModalEdit.Regex

/-! ## Rounds -/

/-- **`Rounds R n i k`** — `n` steps of `R` lead from `i` to `k`. -/
inductive Rounds (R : Nat → Nat → Prop) : Nat → Nat → Nat → Prop
  | none (i : Nat) : Rounds R 0 i i
  | more {n i j k : Nat} : R i j → Rounds R n j k → Rounds R (n + 1) i k

namespace Rounds

variable {R S : Nat → Nat → Prop} {m n i j k : Nat}

theorem zero_iff : Rounds R 0 i k ↔ k = i := by
  constructor
  · rintro ⟨⟩
    rfl
  · rintro rfl
    exact .none _

theorem succ_iff : Rounds R (n + 1) i k ↔ ∃ j, R i j ∧ Rounds R n j k := by
  constructor
  · rintro (_ | ⟨hstep, hrest⟩)
    exact ⟨_, hstep, hrest⟩
  · rintro ⟨j, hstep, hrest⟩
    exact .more hstep hrest

theorem add_iff : Rounds R (m + n) i k ↔ ∃ j, Rounds R m i j ∧ Rounds R n j k := by
  induction m generalizing i with
  | zero => simp [zero_iff]
  | succ m ih =>
    rw [Nat.succ_add, succ_iff]
    simp only [ih, succ_iff]
    constructor
    · rintro ⟨j, hstep, l, hfirst, hlast⟩
      exact ⟨l, ⟨j, hstep, hfirst⟩, hlast⟩
    · rintro ⟨l, ⟨j, hstep, hfirst⟩, hlast⟩
      exact ⟨j, hstep, l, hfirst, hlast⟩

/-- What a step keeps, rounds keep. -/
theorem keeps {P : Nat → Prop} (hstep : ∀ i j, P i → R i j → P j) (h : Rounds R n i k)
    (hi : P i) : P k := by
  induction h with
  | none _ => exact hi
  | more hfirst _ ih => exact ih (hstep _ _ hi hfirst)

theorem congr_of {P : Nat → Prop} (hstep : ∀ i j, P i → R i j → P j)
    (h : ∀ i j, P i → (R i j ↔ S i j)) (hi : P i) : Rounds R n i k ↔ Rounds S n i k := by
  induction n generalizing i with
  | zero => rw [zero_iff, zero_iff]
  | succ n ih =>
    rw [succ_iff, succ_iff]
    refine exists_congr fun j => ?_
    rw [← h i j hi]
    exact and_congr_right fun hfirst => ih (hstep i j hi hfirst)

end Rounds

/-! ## Matches -/

/-- **`tree.Matches spans text i k`** — the tree matches the text from `i` to `k`, if its items
match what `spans` says. -/
def Tree.Matches {I G : Type} (spans : I → List Char → Nat → Nat → Prop) (text : List Char) :
    Tree I G → Nat → Nat → Prop
  | empty, i, k | setting, i, k => k = i
  | item a, i, k => spans a text i k
  | seq a b, i, k => ∃ j, a.Matches spans text i j ∧ b.Matches spans text j k
  | alt a b, i, k => a.Matches spans text i k ∨ b.Matches spans text i k
  | repetition op a, i, k =>
    ∃ n, op.low ≤ n ∧ (∀ m ∈ op.high, n ≤ m) ∧ Rounds (a.Matches spans text) n i k
  | group _ a, i, k => a.Matches spans text i k

/-! ## Documentation -/

variable {F I G : Type}

/-- **`lexer.Standard`** — the constructs are written as usual, as far as it matters to a pattern
between anchors. -/
structure Lexer.Standard (lexer : Lexer F I G) where
  /-- What `^` and `$` stand for under some flags. -/
  start : F → I
  stop : F → I
  /-- The kind of the groups that begin with `(?:`. -/
  unnamed : G
  /-- A construct takes something of the text, and leaves an end of it. -/
  leaves {flags : F} {text rest : List Char} {construct : Construct F I G} :
    lexer.first? flags text = some (construct, rest) → rest <:+ text ∧ rest.length < text.length
  /-- `^` and `$` are items. -/
  caret (flags : F) (rest : List Char) :
    lexer.first? flags ('^' :: rest) = some (.item (start flags), rest)
  dollar (flags : F) (rest : List Char) :
    lexer.first? flags ('$' :: rest) = some (.item (stop flags), rest)
  /-- `(?:` opens a group and leaves the flags as they are. -/
  opening (flags : F) (rest : List Char) :
    lexer.first? flags ('(' :: '?' :: ':' :: rest) = some (.opening unnamed flags, rest)
  /-- `)` closes a group, and nothing else does. -/
  closing_iff {flags : F} {text rest : List Char} :
    lexer.first? flags text = some (.closing, rest) ↔ text = ')' :: rest
  /-- A comment goes on to the end of its line. -/
  comment {flags : F} {text rest more : List Char} :
    lexer.first? flags text = some (.comment, rest) → '\n' ∉ more →
      lexer.first? flags (text ++ more) = some (.comment, [])
  /-- Any other construct ends where its own notation says: a `)` behind it does not change it. -/
  ends {flags : F} {text rest more : List Char} {construct : Construct F I G} :
    lexer.first? flags text = some (construct, rest) → construct ≠ .comment → '\n' ∉ more →
      lexer.first? flags (text ++ ')' :: more) = some (construct, rest ++ ')' :: more)
  /-- What is no construct becomes one by a `)` behind it only if this is part of it. -/
  takes {flags : F} {text rest more : List Char} {construct : Construct F I G} :
    lexer.first? flags text = none → '\n' ∉ more →
      lexer.first? flags (text ++ ')' :: more) = some (construct, rest) → rest <:+ more

/-- **`Documented R F I G`** — an engine and what its documentation says of it: it reads patterns in
a standard notation, refuses those that give two groups one name and those beyond its limits, and
searches texts for what the others match. -/
structure Documented (R F I G : Type) [Engine R] where
  lexer : Lexer F I G
  standard : lexer.Standard
  /-- The name of a group, if it has one. -/
  name? : G → Option (List Char)
  name?_unnamed : name? standard.unnamed = none
  /-- From where to where an item matches. -/
  spans : I → List Char → Nat → Nat → Prop
  /-- Without flags, `^` and `$` match at the two ends of the text. -/
  spans_start {text : List Char} {i k : Nat} :
    spans (standard.start lexer.plain) text i k ↔ i = 0 ∧ k = 0
  spans_stop {text : List Char} {i k : Nat} :
    spans (standard.stop lexer.plain) text i k ↔ i = text.length ∧ k = text.length
  /-- Whether a tree is within the limits of nesting and size. -/
  fits : Tree I G → Prop
  /-- What a compiled pattern has been read as. -/
  tree : R → Tree I G
  /-- What can be compiled. -/
  compiles {pattern : String} {whole : Tree I G} :
    (∃ r : R, Engine.compile? pattern = some r ∧ tree r = whole) ↔
      lexer.read pattern.toList = .ok whole ∧ (whole.groups.filterMap name?).Nodup ∧ fits whole
  /-- Where a compiled pattern is found. -/
  finds {r : R} {text : String} :
    Engine.isMatch r text = true ↔
      ∃ i k, i ≤ text.toList.length ∧ (tree r).Matches spans text.toList i k

end ModalEdit.Regex
