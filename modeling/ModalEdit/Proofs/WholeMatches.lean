import ModalEdit.Proofs.HookRegistrations
import ModalEdit.Proofs.PatternNotation
import ModalEdit.Proofs.RegexGroups

/-!
# Patterns for a whole text

A filter is compiled by writing its pattern between anchors, as text. What comes out of this is told
here by the pattern read by itself: the same pattern, which now has to match from the first
character to the last (`Regex.Documented.isMatch_iff_matchesWhole`). So a hook fires for the
parameters that its pattern matches as a whole, a removal takes the hooks whose ids are so matched,
and what is no pattern is refused (`HookTable.filters_match_whole_texts`). All of this holds for
every engine that does what its documentation says (`Regex.Documented`), such as the one of this
library (`Pattern.documented`).

There are exceptions. A pattern that closes a group it has not opened closes that of the anchors,
and may be accepted although it is none (`Pattern.group_of_anchors_is_closed`). A pattern that ends
in a comment is refused although it is one, for the comment swallows the anchor behind it
(`Pattern.anchor_is_swallowed`). And the limits of the engine are those for the pattern with its
anchors, which nests deeper than the pattern by itself and has another size.
-/

namespace ModalEdit

namespace Regex.Documented

variable {R F I G : Type} [Engine R] (doc : Documented R F I G) {pattern : String}
  {tree whole : Tree I G}

/-- **`doc.Reads pattern tree`** — the pattern is well formed, by itself, and read as the tree. -/
def Reads (pattern : String) (tree : Tree I G) : Prop :=
  doc.lexer.read pattern.toList = .ok tree ∧ (tree.groups.filterMap doc.name?).Nodup

/-- **`doc.MatchesWhole tree text`** — the tree matches the text from its first character to its
last. -/
def MatchesWhole (tree : Tree I G) (text : String) : Prop :=
  tree.Matches doc.spans text.toList 0 text.toList.length

/-- The tree of a pattern between anchors. -/
abbrev anchored (tree : Tree I G) : Tree I G := doc.standard.anchored tree

variable {doc}

theorem Reads.unique {other : Tree I G} (h : doc.Reads pattern tree)
    (hother : doc.Reads pattern other) : tree = other :=
  Except.ok.inj (h.1.symm.trans hother.1)

theorem isSome_compile?_iff (doc : Documented R F I G) :
    (Engine.compile? (R := R) pattern).isSome = true ↔
      ∃ tree, doc.Reads pattern tree ∧ doc.fits tree := by
  rw [Option.isSome_iff_exists]
  constructor
  · rintro ⟨r, hr⟩
    obtain ⟨hread, hnames, hfits⟩ := doc.compiles.mp ⟨r, hr, rfl⟩
    exact ⟨doc.tree r, ⟨hread, hnames⟩, hfits⟩
  · rintro ⟨tree, ⟨hread, hnames⟩, hfits⟩
    obtain ⟨r, hr, -⟩ := doc.compiles.mpr ⟨hread, hnames, hfits⟩
    exact ⟨r, hr⟩

/-- The anchors have no name. -/
theorem names_anchored :
    (doc.anchored tree).groups.filterMap doc.name? = tree.groups.filterMap doc.name? := by
  simp [Lexer.Standard.anchored, Tree.groups, doc.name?_unnamed]

/-- **Compiled between anchors** — the patterns that are well formed by themselves, apart from the
exceptions, and what they become. -/
theorem compileFull?_iff (hopened : doc.lexer.read pattern.toList ≠ .error .unopened) :
    (∃ full : R, compileFull? pattern = some full ∧ doc.tree full = whole) ↔
      ∃ tree, doc.Reads pattern tree ∧ doc.fits (doc.anchored tree) ∧
        ¬ doc.lexer.EndsInComment pattern.toList ∧ whole = doc.anchored tree := by
  show (∃ full : R, Engine.compile? (anchor pattern) = some full ∧ _) ↔ _
  rw [doc.compiles, doc.standard.read_anchor_iff hopened]
  constructor
  · rintro ⟨⟨hends, tree, hread, rfl⟩, hnames, hfits⟩
    rw [names_anchored] at hnames
    exact ⟨tree, ⟨hread, hnames⟩, hfits, hends, rfl⟩
  · rintro ⟨tree, ⟨hread, hnames⟩, hfits, hends, rfl⟩
    rw [names_anchored]
    exact ⟨⟨hends, tree, hread, rfl⟩, hnames, hfits⟩

theorem isSome_compileFull?_iff (hopened : doc.lexer.read pattern.toList ≠ .error .unopened) :
    (compileFull? pattern : Option R).isSome = true ↔
      ∃ tree, doc.Reads pattern tree ∧ doc.fits (doc.anchored tree) ∧
        ¬ doc.lexer.EndsInComment pattern.toList := by
  rw [Option.isSome_iff_exists]
  constructor
  · rintro ⟨full, hfull⟩
    obtain ⟨tree, hreads, hfits, hends, -⟩ := (compileFull?_iff hopened).mp ⟨full, hfull, rfl⟩
    exact ⟨tree, hreads, hfits, hends⟩
  · rintro ⟨tree, hreads, hfits, hends⟩
    obtain ⟨full, hfull, -⟩ := (compileFull?_iff hopened).mpr ⟨tree, hreads, hfits, hends, rfl⟩
    exact ⟨full, hfull⟩

/-- **Between anchors** — a pattern is found in a text if by itself it matches the whole of it. -/
theorem isMatch_iff_matchesWhole {full : R} (h : doc.tree full = doc.anchored tree)
    (text : String) : Engine.isMatch full text = true ↔ doc.MatchesWhole tree text := by
  rw [doc.finds, h]
  constructor
  · rintro ⟨i, k, -, j, hstart, l, hinner, hstop⟩
    obtain ⟨-, rfl⟩ := doc.spans_start.mp hstart
    obtain ⟨rfl, -⟩ := doc.spans_stop.mp hstop
    exact hinner
  · intro hinner
    exact ⟨0, text.toList.length, Nat.zero_le _, 0, doc.spans_start.mpr ⟨rfl, rfl⟩, _, hinner,
      doc.spans_stop.mpr ⟨rfl, rfl⟩⟩

end Regex.Documented

/-! ## Filters -/

namespace HookTable

open Regex

variable {C R F I G : Type} [Engine R] {text : String}

theorem matching_addHook {P : Type} [FilterKind P] (table : HookTable C P) (event : String)
    (hook : Hook C P) (other param : String) :
    (table.addHook event hook).matching other param = table.matching other param ++
      if other = event ∧ hook.accepts param then [hook.callback] else [] := by
  unfold matching
  rw [hooks_addHook]
  by_cases hother : other = event
  · by_cases haccepts : hook.accepts param = true <;> simp [hother, haccepts]
  · simp [hother]

open scoped Classical in
/-- **Filters match whole texts** — for every documented engine, after every sequence of calls, for
a text that closes no group that it has not opened. The text is a filter if it is a well-formed
pattern by itself that does not end in a comment and is within the limits between its anchors; so,
where the anchors make no difference to the limits, if it is a pattern by itself that does not end
in a comment. To add and to remove fails for all others. A filter accepts exactly the texts that the
pattern by itself matches from the first character to the last. So a hook that is added with it runs
behind those there are, for its event with such a parameter and for nothing else; and a removal
takes exactly the hooks that have an id, and such a one. -/
theorem filters_match_whole_texts (doc : Documented R F I G)
    (hopened : doc.lexer.read text.toList ≠ .error .unopened) (calls : List (HookCall C)) :
    let table : HookTable C R := calls.foldl after {}
    let filter? : Option R := FilterKind.compile? text
    (filter?.isSome = true ↔
        ∃ tree, doc.Reads text tree ∧ doc.fits (doc.anchored tree) ∧
          ¬ doc.lexer.EndsInComment text.toList) ∧
      ((∀ tree, doc.Reads text tree → (doc.fits (doc.anchored tree) ↔ doc.fits tree)) →
        (filter?.isSome = true ↔ (Engine.compile? (R := R) text).isSome = true ∧
          ¬ doc.lexer.EndsInComment text.toList)) ∧
      (filter? = none →
        (∀ event id callback,
          table.add event id text callback = .error (.invalidPattern text)) ∧
          table.remove text = .error (.invalidPattern text)) ∧
      ∀ full, filter? = some full → ∃ tree, doc.Reads text tree ∧
        (∀ s, Engine.isMatch full s = true ↔ doc.MatchesWhole tree s) ∧
        (∀ event id callback, ∃ changed, table.add event id text callback = .ok changed ∧
          ∀ other param, changed.matching other param = table.matching other param ++
            if other = event ∧ doc.MatchesWhole tree param then [callback] else []) ∧
        ∃ count changed, table.remove text = .ok (count, changed) ∧
          ∀ event, changed.hooks event =
            (table.hooks event).filter fun hook =>
              hook.id = "" ∨ ¬ doc.MatchesWhole tree hook.id := by
  intro table filter?
  have hsome : filter?.isSome = true ↔ _ := Documented.isSome_compileFull?_iff hopened
  refine ⟨hsome, fun hlimits => ?_,
    fun hnone => ⟨fun event id callback => add_of_none hnone, remove_of_none hnone⟩, ?_⟩
  · rw [hsome, doc.isSome_compile?_iff]
    constructor
    · rintro ⟨tree, hreads, hfits, hends⟩
      exact ⟨⟨tree, hreads, (hlimits tree hreads).mp hfits⟩, hends⟩
    · rintro ⟨⟨tree, hreads, hfits⟩, hends⟩
      exact ⟨tree, hreads, (hlimits tree hreads).mpr hfits, hends⟩
  intro full hfull
  obtain ⟨tree, hreads, -, -, htree⟩ :=
    (Documented.compileFull?_iff hopened).mp ⟨full, hfull, rfl⟩
  have hmatch : ∀ s, Engine.isMatch full s = true ↔ doc.MatchesWhole tree s :=
    Documented.isMatch_iff_matchesWhole htree
  refine ⟨tree, hreads, hmatch, fun event id callback => ⟨_, add_of_some hfull,
    fun other param => ?_⟩, _, _, remove_of_some hfull, fun event => ?_⟩
  · have haccepts : Hook.accepts ⟨id, full, callback⟩ param = true ↔ doc.MatchesWhole tree param :=
      hmatch param
    rw [matching_addHook]
    simp only [haccepts]
  · have hholds : table.Holds (calls.foldl Registration.after []) := Holds.empty.after_calls calls
    rw [hooks_removeMatching hholds.distinct]
    refine List.filter_congr fun hook _ => ?_
    have hid : FilterKind.isMatch full hook.id = true ↔ doc.MatchesWhole tree hook.id :=
      hmatch hook.id
    rw [survives, Bool.eq_iff_iff, decide_eq_true_iff, ← hid]
    simp

/-- A pattern of two alternatives, with flags of its own and a comment that its line ends. -/
theorem filters_match_whole_texts_of_words :
    let doc := Pattern.documented
    let text := "(?x) foo | b(a|ä)* # words\n"
    let calls : List (HookCall Nat) :=
      [.add "E" "x" "." 1, .add "E" "baä" ".*" 2, .add "E" "" "x" 3, .add "E" "bar" "y" 4]
    let table : HookTable Nat Pattern := calls.foldl after {}
    doc.lexer.read text.toList ≠ .error .unopened ∧
      (∀ tree, doc.Reads text tree → (doc.fits (doc.anchored tree) ↔ doc.fits tree)) ∧
      ¬ doc.lexer.EndsInComment text.toList ∧
      (∃ changed, table.add "E" "z" text 5 = .ok changed ∧
        changed.matching "E" "foo" = [2, 5] ∧ changed.matching "E" "foot" = [2]) ∧
      ∃ count changed, table.remove text = .ok (count, changed) ∧
        (changed.hooks "E").map (·.callback) = [1, 3, 4] := by
  intro doc text calls table
  have hsome : (Pattern.compile? text).isSome = true := by decide +kernel
  have hfilter : (FilterKind.compile? text : Option Pattern).isSome = true := by decide +kernel
  obtain ⟨tree, hreads, hfits⟩ := doc.isSome_compile?_iff.mp hsome
  have hopened : doc.lexer.read text.toList ≠ .error .unopened := by
    rw [hreads.1]
    exact nofun
  obtain ⟨hfilters, hagree, -, haccepts⟩ := filters_match_whole_texts doc hopened calls
  have hlimits : ∀ other, doc.Reads text other →
      (doc.fits (doc.anchored other) ↔ doc.fits other) := by
    intro other hother
    obtain ⟨found, hfound, hfits', -⟩ := hfilters.mp hfilter
    obtain rfl := hother.unique hreads
    obtain rfl := hother.unique hfound
    exact iff_of_true hfits' hfits
  have hends := ((hagree hlimits).mp hfilter).2
  obtain ⟨full, hfull⟩ := Option.isSome_iff_exists.mp hfilter
  obtain ⟨whole, -, hmatch, hadd, count, changed, hremove, hleft⟩ := haccepts full hfull
  -- what is matched is read off the pattern between anchors
  have hmatches : ∀ s, doc.MatchesWhole whole s ↔
      (FilterKind.compile? text : Option Pattern).any (·.isMatch s) = true := by
    intro s
    rw [hfull, Option.any_some]
    exact (hmatch s).symm
  refine ⟨hopened, hlimits, hends, ?_, count, changed, hremove, ?_⟩
  · obtain ⟨added, hadded, hmatching⟩ := hadd "E" "z" 5
    refine ⟨added, hadded, ?_, ?_⟩
    · have hfoo : doc.MatchesWhole whole "foo" := (hmatches "foo").mpr (by decide +kernel)
      rw [hmatching, if_pos ⟨rfl, hfoo⟩]
      decide +kernel
    · have hfoot : (FilterKind.compile? text : Option Pattern).any (·.isMatch "foot") = false := by
        decide +kernel
      have hpart : ¬ doc.MatchesWhole whole "foot" := by
        rw [hmatches, hfoot]
        exact Bool.false_ne_true
      rw [hmatching, if_neg fun h => hpart h.2]
      decide +kernel
  · rw [hleft]
    simp only [hmatches]
    decide +kernel

end HookTable

namespace Pattern

/-! ## Exceptions -/

/-- **The group of the anchors is closed** — what is no pattern becomes one between the anchors, and
then matches parts of a text. -/
theorem group_of_anchors_is_closed :
    compile? "a)|(?:b" = none ∧ lexer.read "a)|(?:b".toList = .error .unopened ∧
      ∃ full : Pattern, Regex.compileFull? "a)|(?:b" = some full ∧ full.isMatch "ax" = true := by
  have hmatch : (Regex.compileFull? "a)|(?:b" : Option Pattern).any (·.isMatch "ax") = true := by
    decide +kernel
  refine ⟨by decide +kernel, by decide +kernel, ?_⟩
  rw [Option.any_eq_true] at hmatch
  exact hmatch

/-- **The anchor is swallowed** — a pattern that is none between the anchors. -/
theorem anchor_is_swallowed :
    (compile? "(?x)a #b").isSome = true ∧ lexer.EndsInComment "(?x)a #b".toList ∧
      (Regex.compileFull? "(?x)a #b" : Option Pattern) = none := by
  have hends : (Regex.Reader.run lexer { flags := lexer.plain } "(?x)a #b".toList).toOption.any
      (·.commented) = true := by decide +kernel
  rw [Option.any_eq_true] at hends
  obtain ⟨last, hlast, hcommented⟩ := hends
  refine ⟨by decide +kernel, ⟨last, ?_, hcommented⟩, by decide +kernel⟩
  cases hread : Regex.Reader.run lexer { flags := lexer.plain } "(?x)a #b".toList <;>
    rw [hread] at hlast <;> cases hlast
  rfl

end Pattern

end ModalEdit
