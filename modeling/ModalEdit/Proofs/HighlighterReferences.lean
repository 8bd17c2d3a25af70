import Mathlib.Data.List.Forall2
import ModalEdit.Editor.Highlighting

/-!
# References between groups of highlighters

A reference stands for the group that it names among the shared ones, and that group may hold
references in turn, back to where it was referred to from among others. The trees are gone through
with a count of the references that were followed on the way; only a reference raises it.
`Traverses` says so step by step, and there is always exactly one outcome, which `spans` computes
(`traverses_iff`).

`Expands` knows of no limit: it puts the content of the named group in the place of a reference, and
so has a result only where that comes to an end. It does where no chain of references is longer than
the limit (`exists_expands`), and the limit then cuts nothing off (`Expands.spans_eq`). So what is
highlighted are the leaves of the expanded trees (`highlight_expands_references`).
-/

namespace ModalEdit

namespace HighlighterGroup

variable {H : Type}

@[simp] theorem leaves_nil : leaves ([] : HighlighterGroup H) = [] := rfl

@[simp] theorem leaves_cons_leaf (name : String) (h : H) (rest : HighlighterGroup H) :
    leaves ((name, .leaf h) :: rest) = h :: rest.leaves := rfl

@[simp] theorem leaves_cons_group (name : String) (children rest : HighlighterGroup H) :
    leaves ((name, .group children) :: rest) = children.leaves ++ rest.leaves := rfl

/-- Induction over the members of a group and those of its subgroups. -/
@[elab_as_elim]
theorem induction_members {motive : HighlighterGroup H → Prop} (group : HighlighterGroup H)
    (nil : motive [])
    (leaf : ∀ name h rest, motive rest → motive ((name, .leaf h) :: rest))
    (group_cons : ∀ name children rest, motive children → motive rest →
      motive ((name, .group children) :: rest)) : motive group :=
  match group with
  | [] => nil
  | (name, .leaf h) :: rest => leaf name h rest (induction_members rest nil leaf group_cons)
  | (name, .group children) :: rest =>
    group_cons name children rest (induction_members children nil leaf group_cons)
      (induction_members rest nil leaf group_cons)
  termination_by sizeOf group

end HighlighterGroup

namespace Highlighter

variable {text : List Char} {defined group target : HighlighterGroup Highlighter}

/-! ## Going through a tree -/

/-- **`Traverses text defined depth group out`** — going through `group`, with `depth` references
followed on the way there, puts out `out`. -/
inductive Traverses (text : List Char) (defined : HighlighterGroup Highlighter) :
    Nat → HighlighterGroup Highlighter → List HighlightSpan → Prop
  | nil (depth : Nat) : Traverses text defined depth [] []
  | pattern {depth : Nat} {rest : HighlighterGroup Highlighter} {out : List HighlightSpan}
    (name : String) (p : Pattern) (face : String) :
    Traverses text defined depth rest out →
      Traverses text defined depth ((name, .leaf (.pattern p face)) :: rest)
        (matchSpans text p face ++ out)
  | group {depth : Nat} {children rest : HighlighterGroup Highlighter}
    {inner out : List HighlightSpan} (name : String) :
    Traverses text defined depth children inner → Traverses text defined depth rest out →
      Traverses text defined depth ((name, .group children) :: rest) (inner ++ out)
  /-- As many references as may be were followed on the way. -/
  | tooDeep {depth : Nat} {rest : HighlighterGroup Highlighter} {out : List HighlightSpan}
    (name path : String) :
    referenceLimit ≤ depth → Traverses text defined depth rest out →
      Traverses text defined depth ((name, .leaf (.reference path)) :: rest) out
  /-- There is no such group. -/
  | missing {depth : Nat} {rest : HighlighterGroup Highlighter} {out : List HighlightSpan}
    {path : String} {e : RegistryError} (name : String) :
    depth < referenceLimit → defined.getGroup path = .error e →
      Traverses text defined depth rest out →
      Traverses text defined depth ((name, .leaf (.reference path)) :: rest) out
  | follow {depth : Nat} {target rest : HighlighterGroup Highlighter}
    {inner out : List HighlightSpan} {path : String} (name : String) :
    depth < referenceLimit → defined.getGroup path = .ok target →
      Traverses text defined (depth + 1) target inner → Traverses text defined depth rest out →
      Traverses text defined depth ((name, .leaf (.reference path)) :: rest) (inner ++ out)

/-- What a group puts out, where references may nest `left` deep. -/
def groupSpans (text : List Char) (defined : HighlighterGroup Highlighter) (left : Nat)
    (group : HighlighterGroup Highlighter) : List HighlightSpan :=
  group.leaves.flatMap (spans text defined left)

section GroupSpans

variable (left : Nat) (name : String) (rest : HighlighterGroup Highlighter)

@[simp] theorem groupSpans_nil : groupSpans text defined left [] = [] := rfl

@[simp] theorem groupSpans_pattern (p : Pattern) (face : String) :
    groupSpans text defined left ((name, .leaf (.pattern p face)) :: rest) =
      matchSpans text p face ++ groupSpans text defined left rest := by
  rw [groupSpans, HighlighterGroup.leaves_cons_leaf, List.flatMap_cons, spans]
  rfl

@[simp] theorem groupSpans_group (children : HighlighterGroup Highlighter) :
    groupSpans text defined left ((name, .group children) :: rest) =
      groupSpans text defined left children ++ groupSpans text defined left rest := by
  rw [groupSpans, HighlighterGroup.leaves_cons_group, List.flatMap_append]
  rfl

@[simp] theorem groupSpans_tooDeep (path : String) :
    groupSpans text defined 0 ((name, .leaf (.reference path)) :: rest) =
      groupSpans text defined 0 rest := by
  rw [groupSpans, HighlighterGroup.leaves_cons_leaf, List.flatMap_cons, spans]
  rfl

theorem groupSpans_missing {path : String} {e : RegistryError}
    (h : defined.getGroup path = .error e) :
    groupSpans text defined left ((name, .leaf (.reference path)) :: rest) =
      groupSpans text defined left rest := by
  cases left with
  | zero => exact groupSpans_tooDeep name rest path
  | succ left =>
    rw [groupSpans, HighlighterGroup.leaves_cons_leaf, List.flatMap_cons, spans, h]
    rfl

theorem groupSpans_follow {path : String} (h : defined.getGroup path = .ok target) :
    groupSpans text defined (left + 1) ((name, .leaf (.reference path)) :: rest) =
      groupSpans text defined left target ++ groupSpans text defined (left + 1) rest := by
  rw [groupSpans, HighlighterGroup.leaves_cons_leaf, List.flatMap_cons, spans, h]
  rfl

end GroupSpans

/-- **Going through a tree ends** — by induction on how many references may still be followed, and
for each number over the members of the tree: only a reference leaves the tree, and it lowers the
number. -/
theorem traverses_groupSpans {depth left : Nat} (h : depth + left = referenceLimit)
    (group : HighlighterGroup Highlighter) :
    Traverses text defined depth group (groupSpans text defined left group) := by
  induction left generalizing depth group with
  | zero =>
    induction group using HighlighterGroup.induction_members with
    | nil => exact .nil depth
    | leaf name h' rest ih =>
      cases h' with
      | pattern p face =>
        rw [groupSpans_pattern]
        exact .pattern name p face ih
      | reference path =>
        rw [groupSpans_tooDeep]
        exact .tooDeep name path (by omega) ih
    | group_cons name children rest ihchildren ihrest =>
      rw [groupSpans_group]
      exact .group name ihchildren ihrest
  | succ left ihleft =>
    have hlt : depth < referenceLimit := by omega
    induction group using HighlighterGroup.induction_members with
    | nil => exact .nil depth
    | leaf name h' rest ih =>
      cases h' with
      | pattern p face =>
        rw [groupSpans_pattern]
        exact .pattern name p face ih
      | reference path =>
        cases hget : defined.getGroup path with
        | error e =>
          rw [groupSpans_missing _ _ _ hget]
          exact .missing name hlt hget ih
        | ok target =>
          rw [groupSpans_follow _ _ _ hget]
          exact .follow name hlt hget (ihleft (by omega) target) ih
    | group_cons name children rest ihchildren ihrest =>
      rw [groupSpans_group]
      exact .group name ihchildren ihrest

/-- There is no other outcome. -/
theorem Traverses.eq_groupSpans {depth left : Nat} {out : List HighlightSpan}
    (h : Traverses text defined depth group out) (hleft : depth + left = referenceLimit) :
    out = groupSpans text defined left group := by
  induction h generalizing left with
  | nil => rfl
  | pattern name p face _ ih => rw [groupSpans_pattern, ← ih hleft]
  | group name _ _ ihchildren ihrest =>
    rw [groupSpans_group, ← ihchildren hleft, ← ihrest hleft]
  | tooDeep name path hdepth _ ih =>
    obtain rfl : left = 0 := by omega
    rw [groupSpans_tooDeep, ← ih hleft]
  | missing name _ hget _ ih => rw [groupSpans_missing _ _ _ hget, ← ih hleft]
  | follow name hdepth hget _ _ ihtarget ihrest =>
    obtain ⟨left, rfl⟩ : ∃ n, left = n + 1 := ⟨left - 1, by omega⟩
    rw [groupSpans_follow _ _ _ hget, ← ihtarget (by omega), ← ihrest hleft]

theorem traverses_iff {depth left : Nat} {out : List HighlightSpan}
    (h : depth + left = referenceLimit) :
    Traverses text defined depth group out ↔ out = groupSpans text defined left group :=
  ⟨fun ht => ht.eq_groupSpans h, fun heq => heq ▸ traverses_groupSpans h group⟩

/-! ## Trees without references -/

/-- A highlighter that covers the matches of a pattern. -/
structure Face where
  pattern : Pattern
  face : String

/-- The spans of the leaves, depth first and in order. -/
def faceSpans (text : List Char) (tree : HighlighterGroup Face) : List HighlightSpan :=
  tree.leaves.flatMap fun leaf => matchSpans text leaf.pattern leaf.face

/-- **`Expands defined group tree`** — `tree` is `group` with the content of the named group in the
place of each reference, and nothing in the place of those that name none. -/
inductive Expands (defined : HighlighterGroup Highlighter) :
    HighlighterGroup Highlighter → HighlighterGroup Face → Prop
  | nil : Expands defined [] []
  | pattern {rest : HighlighterGroup Highlighter} {rest' : HighlighterGroup Face} (name : String)
    (p : Pattern) (face : String) :
    Expands defined rest rest' →
      Expands defined ((name, .leaf (.pattern p face)) :: rest) ((name, .leaf ⟨p, face⟩) :: rest')
  | group {children rest : HighlighterGroup Highlighter} {children' rest' : HighlighterGroup Face}
    (name : String) :
    Expands defined children children' → Expands defined rest rest' →
      Expands defined ((name, .group children) :: rest) ((name, .group children') :: rest')
  | missing {rest : HighlighterGroup Highlighter} {rest' : HighlighterGroup Face} {path : String}
    {e : RegistryError} (name : String) :
    defined.getGroup path = .error e → Expands defined rest rest' →
      Expands defined ((name, .leaf (.reference path)) :: rest) ((name, .group []) :: rest')
  | reference {target rest : HighlighterGroup Highlighter} {target' rest' : HighlighterGroup Face}
    {path : String} (name : String) :
    defined.getGroup path = .ok target → Expands defined target target' →
      Expands defined rest rest' →
      Expands defined ((name, .leaf (.reference path)) :: rest) ((name, .group target') :: rest')

theorem Expands.unique {tree other : HighlighterGroup Face} (h : Expands defined group tree)
    (h' : Expands defined group other) : tree = other := by
  induction h generalizing other with
  | nil =>
    cases h'
    rfl
  | pattern name p face _ ih =>
    cases h' with
    | pattern _ _ _ hrest => rw [ih hrest]
  | group name _ _ ihchildren ihrest =>
    cases h' with
    | group _ hchildren hrest => rw [ihchildren hchildren, ihrest hrest]
  | missing name hget _ ih =>
    cases h' with
    | missing _ _ hrest => rw [ih hrest]
    | reference _ hget' => cases hget.symm.trans hget'
  | reference name hget _ _ ihtarget ihrest =>
    cases h' with
    | missing _ hget' => cases hget.symm.trans hget'
    | reference _ hget' htarget hrest =>
      obtain rfl := Except.ok.inj (hget.symm.trans hget')
      rw [ihtarget htarget, ihrest hrest]

/-! ## Chains of references -/

/-- **`Chain defined group paths`** — there is a reference to the first path in `group`, one to the
second path in the group that the first one names, and so on. -/
inductive Chain (defined : HighlighterGroup Highlighter) :
    HighlighterGroup Highlighter → List String → Prop
  | nil (group : HighlighterGroup Highlighter) : Chain defined group []
  | cons {group target : HighlighterGroup Highlighter} {path : String} {paths : List String} :
    .reference path ∈ group.leaves → defined.getGroup path = .ok target →
      Chain defined target paths → Chain defined group (path :: paths)

/-- **`Nests defined n group`** — no chain of references from `group` is longer than `n`. -/
def Nests (defined : HighlighterGroup Highlighter) (n : Nat)
    (group : HighlighterGroup Highlighter) : Prop :=
  ∀ paths, Chain defined group paths → paths.length ≤ n

namespace Nests

variable {n : Nat}

theorem of_subset {part : HighlighterGroup Highlighter} (h : Nests defined n group)
    (hsub : part.leaves ⊆ group.leaves) : Nests defined n part := by
  rintro paths (_ | ⟨hmem, hget, hrest⟩)
  · exact Nat.zero_le n
  · exact h _ (.cons (hsub hmem) hget hrest)

/-- The groups that are referred to nest one less deep. -/
theorem follow {path : String} (h : Nests defined n group)
    (hmem : .reference path ∈ group.leaves) (hget : defined.getGroup path = .ok target) :
    ∃ m, n = m + 1 ∧ Nests defined m target := by
  have hpos : 1 ≤ n := h [path] (.cons hmem hget (.nil target))
  refine ⟨n - 1, by omega, fun paths hpaths => ?_⟩
  have hlength := h (path :: paths) (.cons hmem hget hpaths)
  rw [List.length_cons] at hlength
  omega

theorem succ_iff :
    Nests defined (n + 1) group ↔ ∀ path target, .reference path ∈ group.leaves →
      defined.getGroup path = .ok target → Nests defined n target := by
  constructor
  · intro h path target hmem hget
    obtain ⟨m, hm, htarget⟩ := h.follow hmem hget
    obtain rfl := Nat.succ.inj hm
    exact htarget
  · rintro h paths (_ | ⟨hmem, hget, hrest⟩)
    · exact Nat.zero_le _
    · exact Nat.succ_le_succ (h _ _ hmem hget _ hrest)

end Nests

/-- Whether no chain of references from a group is longer than the number. -/
def nests (defined : HighlighterGroup Highlighter) : Nat → HighlighterGroup Highlighter → Bool
  | 0, group => group.leaves.all fun
    | .pattern _ _ => true
    | .reference path => !(defined.getGroup path).isOk
  | n + 1, group => group.leaves.all fun
    | .pattern _ _ => true
    | .reference path => match defined.getGroup path with
      | .ok target => nests defined n target
      | .error _ => true

/-- What is checked can be relied upon: no chain is longer. -/
theorem nests_sound {n : Nat} (h : nests defined n group = true) : Nests defined n group := by
  induction n generalizing group with
  | zero =>
    rw [nests, List.all_eq_true] at h
    rintro paths (_ | ⟨hmem, hget, -⟩)
    · exact Nat.le_refl 0
    · have hnone := h _ hmem
      dsimp only at hnone
      rw [hget] at hnone
      cases hnone
  | succ n ih =>
    rw [nests, List.all_eq_true] at h
    refine Nests.succ_iff.mpr fun path target hmem hget => ih ?_
    have htarget := h _ hmem
    dsimp only at htarget
    rwa [hget] at htarget

/-- **Chains that end can be expanded** — by induction on how deep references nest, and for each
depth over the members of the tree. -/
theorem exists_expands {n : Nat} (h : Nests defined n group) :
    ∃ tree, Expands defined group tree := by
  induction n using Nat.strongRecOn generalizing group with
  | _ n ihn =>
    induction group using HighlighterGroup.induction_members with
    | nil => exact ⟨[], .nil⟩
    | leaf name h' rest ih =>
      obtain ⟨rest', hrest⟩ := ih (h.of_subset (List.subset_cons_self _ _))
      cases h' with
      | pattern p face => exact ⟨_, .pattern name p face hrest⟩
      | reference path =>
        cases hget : defined.getGroup path with
        | error e => exact ⟨_, .missing name hget hrest⟩
        | ok target =>
          obtain ⟨m, rfl, hm⟩ := h.follow List.mem_cons_self hget
          obtain ⟨target', htarget⟩ := ihn m (Nat.lt_succ_self m) hm
          exact ⟨_, .reference name hget htarget hrest⟩
    | group_cons name children rest ihchildren ihrest =>
      obtain ⟨children', hchildren⟩ := ihchildren (h.of_subset (List.subset_append_left _ _))
      obtain ⟨rest', hrest⟩ := ihrest (h.of_subset (List.subset_append_right _ _))
      exact ⟨_, .group name hchildren hrest⟩

/-- **The limit cuts nothing off** — where no chain is longer than it. -/
theorem Expands.spans_eq {tree : HighlighterGroup Face} {left : Nat}
    (h : Expands defined group tree) (hnests : Nests defined left group) :
    groupSpans text defined left group = faceSpans text tree := by
  induction h generalizing left with
  | nil => rfl
  | pattern name p face _ ih =>
    rw [groupSpans_pattern, ih (hnests.of_subset (List.subset_cons_self _ _))]
    rfl
  | group name _ _ ihchildren ihrest =>
    rw [groupSpans_group, ihchildren (hnests.of_subset (List.subset_append_left _ _)),
      ihrest (hnests.of_subset (List.subset_append_right _ _)), faceSpans, faceSpans, faceSpans,
      HighlighterGroup.leaves_cons_group, List.flatMap_append]
  | missing name hget _ ih =>
    rw [groupSpans_missing _ _ _ hget, ih (hnests.of_subset (List.subset_cons_self _ _))]
    rfl
  | reference name hget _ _ ihtarget ihrest =>
    obtain ⟨m, rfl, hm⟩ := hnests.follow List.mem_cons_self hget
    rw [groupSpans_follow _ _ _ hget, ihtarget hm,
      ihrest (hnests.of_subset (List.subset_cons_self _ _)), faceSpans, faceSpans, faceSpans,
      HighlighterGroup.leaves_cons_group, List.flatMap_append]

end Highlighter

/-! ## What is highlighted -/

namespace Scene

open Highlighter

/-- The global tree, that of the document, and that of the window if there is one. -/
def highlighterTrees (s : Scene) : List (HighlighterGroup Highlighter) :=
  [s.editor.scopes.highlighters, s.document.scopes.highlighters] ++
    (s.context.window.map (·.scopes.highlighters)).toList

/-- **`s.Highlights out`** — going through the trees, one after the other, puts out `out`. -/
def Highlights (s : Scene) (out : List HighlightSpan) : Prop :=
  ∃ outs, List.Forall₂ (Traverses s.document.text s.editor.definedHighlighters 0)
    s.highlighterTrees outs ∧ out = outs.flatten

theorem highlight_eq (s : Scene) :
    s.highlight = s.highlighterTrees.flatMap
      (groupSpans s.document.text s.editor.definedHighlighters referenceLimit) := by
  have htrees : s.highlighterTrees = s.visibleTables.map (·.highlighters) := by
    rw [highlighterTrees, visibleTables]
    cases s.context.window <;> rfl
  rw [htrees, List.flatMap_map]
  rfl

/-- A relation that has one result for each of some elements has one list of results for them. -/
theorem forall₂_iff_eq_map {α β : Type} {R : α → β → Prop} {f : α → β} {xs : List α} {ys : List β}
    (h : ∀ x ∈ xs, ∀ y, R x y ↔ y = f x) : List.Forall₂ R xs ys ↔ ys = xs.map f := by
  induction xs generalizing ys with
  | nil => rw [List.forall₂_nil_left_iff, List.map_nil]
  | cons x xs ih =>
    obtain ⟨hx, hxs⟩ := List.forall_mem_cons.mp h
    rw [List.forall₂_cons_left_iff, List.map_cons]
    constructor
    · rintro ⟨y, rest, hy, hrest, rfl⟩
      rw [(hx y).mp hy, (ih hxs).mp hrest]
    · rintro rfl
      exact ⟨_, _, (hx _).mpr rfl, (ih hxs).mpr rfl, rfl⟩

theorem highlights_iff (s : Scene) (out : List HighlightSpan) :
    s.Highlights out ↔ out = s.highlight := by
  have houts : ∀ outs, List.Forall₂
      (Traverses s.document.text s.editor.definedHighlighters 0) s.highlighterTrees outs ↔
        outs = s.highlighterTrees.map
          (groupSpans s.document.text s.editor.definedHighlighters referenceLimit) := fun outs =>
    forall₂_iff_eq_map fun _ _ _ => traverses_iff (Nat.zero_add referenceLimit)
  rw [Highlights, highlight_eq, List.flatMap_def]
  constructor
  · rintro ⟨outs, htraverses, rfl⟩
    rw [(houts outs).mp htraverses]
  · rintro rfl
    exact ⟨_, (houts _).mpr rfl, rfl⟩

/-- **Highlighting ends and expands references** — whatever groups are shared and whatever they
refer to, going through the three trees has exactly one outcome, and it is what is highlighted. If
from none of the trees there is a chain of more than eight references, there is exactly one way to
put the groups in the place of the references that name them, and what is highlighted are the
matches of the leaves then, the global tree coming first and that of the window last. -/
theorem highlight_expands_references (s : Scene) :
    (∀ out, s.Highlights out ↔ out = s.highlight) ∧
    ((∀ group ∈ s.highlighterTrees, Nests s.editor.definedHighlighters 8 group) →
      ∃ trees, (∀ others, List.Forall₂ (Expands s.editor.definedHighlighters) s.highlighterTrees
          others ↔ others = trees) ∧
        s.highlight = trees.flatMap (faceSpans s.document.text)) := by
  refine ⟨s.highlights_iff, fun hnests => ?_⟩
  choose! expanded hexpanded using fun group hgroup => exists_expands (hnests group hgroup)
  refine ⟨s.highlighterTrees.map expanded, fun others => forall₂_iff_eq_map ?_, ?_⟩
  · intro group hgroup tree
    exact ⟨fun h => h.unique (hexpanded group hgroup), fun h => h ▸ hexpanded group hgroup⟩
  · rw [highlight_eq, List.flatMap_map]
    exact List.flatMap_congr fun group hgroup =>
      (hexpanded group hgroup).spans_eq (hnests group hgroup)

/-- A chain of eight references from a subgroup, the last one to a group with a subgroup; a
reference to no group; and a group that refers to itself, which nothing else refers to. -/
theorem highlight_expands_references_chained :
    let link : String → String → String × HighlighterNode Highlighter := fun name path =>
      (name, .group [("ref_" ++ path, .leaf (.reference path))])
    let x : HighlighterNode Highlighter :=
      .leaf (.pattern ⟨"x", .item (.one (.single 'x') 0)⟩ "last")
    let defined : HighlighterGroup Highlighter :=
      [link "a" "b", link "b" "c", link "c" "d", link "d" "e", link "e" "f", link "f" "g",
        link "g" "h", ("h", .group [("deep", .group [("regex_x", x)])]), link "loop" "loop"]
    let y : HighlighterNode Highlighter :=
      .leaf (.pattern ⟨"y", .item (.one (.single 'y') 0)⟩ "first")
    let d : Document :=
      { Document.ofText "notes" "xyx\n" with
        scopes := { highlighters := [link "sub" "a", ("ref_gone", .leaf (.reference "gone"))] } }
    let s : Scene :=
      ⟨{ store := [d], scopes := { highlighters := [("regex_y", y)] }
         definedHighlighters := defined },
        { name := "main", document := 0, tracker := 0, window := some {} }⟩
    s.highlight = [⟨⟨0, 1⟩, ⟨0, 2⟩, "first"⟩, ⟨⟨0, 0⟩, ⟨0, 1⟩, "last"⟩, ⟨⟨0, 2⟩, ⟨0, 3⟩, "last"⟩] ∧
      (∀ out, s.Highlights out ↔ out = s.highlight) ∧
      (∀ group ∈ s.highlighterTrees, Nests defined 8 group) ∧
      ∃ trees, (∀ others, List.Forall₂ (Expands defined) s.highlighterTrees others ↔
          others = trees) ∧
        s.highlight = trees.flatMap (faceSpans s.document.text) := by
  intro link x defined y d s
  have hnested : s.highlighterTrees.all (nests defined 8) = true := by
    unfold s d y defined x link
    decide +kernel
  have hnests : ∀ group ∈ s.highlighterTrees, Nests defined 8 group := fun group hgroup =>
    nests_sound (List.all_eq_true.mp hnested group hgroup)
  obtain ⟨hends, hexpands⟩ := highlight_expands_references s
  refine ⟨?_, hends, hnests, hexpands hnests⟩
  unfold s d y defined x link
  decide +kernel

end Scene

end ModalEdit
