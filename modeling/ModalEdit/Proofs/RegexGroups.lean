import ModalEdit.Proofs.RegexMeaning

/-!
# Reading a pattern inside a group

A reader goes about a pattern in the same way whichever groups are open around it (`take_within`),
as long as it does not close one of those. So a pattern that can be read by itself can be read
between an opening and a closing parenthesis, and is the same there, with one exception: if it ends
in a comment, this swallows the parenthesis (`run_append`). And a pattern that cannot be read by
itself cannot be read there either, unless it is refused for a parenthesis that closes nothing,
which now closes the group around it (`frames_ne_nil_of_run`).

Between anchors a pattern stands in such a group (`Lexer.Standard.read_anchor_iff`).
-/

namespace ModalEdit.Regex

variable {F I G : Type} {lexer : Lexer F I G}

namespace Reader

variable {r next last closed : Reader F I G} {below : List (Frame F I G)}
  {construct : Construct F I G} {text rest more : List Char}

/-- **`r.within below`** — the reader with more groups open around its own. -/
def within (below : List (Frame F I G)) (r : Reader F I G) : Reader F I G :=
  { r with frames := r.frames ++ below }

@[simp] theorem branches_within : (r.within below).branches = r.branches := rfl

/-! ## One construct -/

/-- **One construct** — unless it is the end of a group, it is taken in alike whatever groups are
open around those of the reader. -/
theorem take_within (hopen : construct ≠ .closing) :
    (r.within below).take construct = (r.take construct).map (within below) := by
  cases construct with
  | closing => exact absurd rfl hopen
  | repetition op =>
    show (r.within below).repeatLast op = (r.repeatLast op).map (within below)
    unfold repeatLast
    rw [branches_within]
    cases r.branches.repeatLast? op <;> rfl
  | _ => rfl

/-- The end of a group of the reader, too. -/
theorem take_within_of_ok (h : r.take construct = .ok next) :
    (r.within below).take construct = .ok (next.within below) := by
  by_cases hclosing : construct = .closing
  · subst hclosing
    have hclose : r.closeGroup = .ok next := h
    show (r.within below).closeGroup = _
    unfold closeGroup at hclose
    split at hclose
    next => cases hclose
    next frame frames hframes =>
      cases hclose
      have hwithin : (r.within below).frames = frame :: (frames ++ below) := by
        rw [within, hframes]
        rfl
      unfold closeGroup
      rw [hwithin]
      rfl
  · rw [take_within hclosing, h]
    rfl

theorem frames_suffix_of_take (h : r.take construct = .ok next) (hopen : construct ≠ .closing) :
    r.frames <:+ next.frames := by
  have hself : r = ({ r with frames := [] } : Reader F I G).within r.frames := rfl
  rw [hself, take_within hopen] at h
  cases htake : ({ r with frames := [] } : Reader F I G).take construct with
  | error e =>
    rw [htake] at h
    cases h
  | ok read =>
    rw [htake] at h
    cases h
    exact List.suffix_append _ _

theorem error_of_closing {e : ReadError} (h : r.take .closing = .error e) : e = .unopened := by
  have hclose : r.closeGroup = .error e := h
  unfold closeGroup at hclose
  split at hclose <;> cases hclose
  rfl

/-- Only a comment at the end makes a reader note that there is one. -/
theorem commented_of_take (h : r.take construct = .ok next) (hcomment : construct ≠ .comment) :
    next.commented = r.commented := by
  cases construct with
  | comment => exact absurd rfl hcomment
  | repetition op =>
    have hrepeat : r.repeatLast op = .ok next := h
    unfold repeatLast at hrepeat
    split at hrepeat <;> cases hrepeat
    rfl
  | closing =>
    have hclose : r.closeGroup = .ok next := h
    unfold closeGroup at hclose
    split at hclose <;> cases hclose
    rfl
  | _ =>
    cases h
    rfl

/-! ## Many constructs -/

theorem run_nil : run lexer r [] = .ok r := by
  rw [run, if_pos rfl]

theorem run_of_none (hne : text ≠ []) (hfirst : lexer.first? r.flags text = none) :
    run lexer r text = .error .unreadable := by
  rw [run, if_neg hne, hfirst]

section Standard

variable (standard : lexer.Standard)

include standard

theorem run_of_first (hfirst : lexer.first? r.flags text = some (construct, rest)) :
    run lexer r text = (r.take construct).bind fun next => next.run lexer rest := by
  have hshorter := (standard.leaves hfirst).2
  have hne : text ≠ [] := by
    rintro rfl
    exact absurd hshorter (Nat.not_lt_zero _)
  rw [run, if_neg hne, hfirst]
  dsimp only
  rw [if_pos hshorter]
  cases r.take construct <;> rfl

theorem exists_of_run (h : run lexer r text = .ok last) (hne : text ≠ []) :
    ∃ construct rest next, lexer.first? r.flags text = some (construct, rest) ∧
      r.take construct = .ok next ∧ next.run lexer rest = .ok last := by
  cases hfirst : lexer.first? r.flags text with
  | none =>
    rw [run_of_none hne hfirst] at h
    cases h
  | some read =>
    obtain ⟨construct, rest⟩ := read
    rw [run_of_first standard hfirst] at h
    cases htake : r.take construct with
    | error e =>
      rw [htake] at h
      cases h
    | ok next =>
      rw [htake] at h
      exact ⟨construct, rest, next, rfl, htake, h⟩

theorem rest_of_comment (hfirst : lexer.first? r.flags text = some (.comment, rest)) :
    rest = [] := by
  have hnone : lexer.first? r.flags (text ++ []) = some (.comment, []) :=
    standard.comment hfirst List.not_mem_nil
  rw [List.append_nil, hfirst] at hnone
  cases hnone
  rfl

/-- **In front of a parenthesis** — what can be read is read there in the same way, and then the
parenthesis and what follows, unless they are taken for the rest of a comment. By induction on the
length of the text: each construct leaves less of it. -/
theorem run_append (hline : '\n' ∉ more) (h : run lexer r text = .ok last)
    (hfresh : r.commented = false) :
    run lexer (r.within below) (text ++ ')' :: more) =
      if last.commented then .ok (last.within below)
      else run lexer (last.within below) (')' :: more) := by
  induction hlength : text.length using Nat.strongRecOn generalizing r text with
  | _ length ih =>
    by_cases hne : text = []
    · subst hne
      rw [run_nil] at h
      cases h
      rw [hfresh]
      rfl
    obtain ⟨construct, rest, next, hfirst, htake, hrest⟩ := exists_of_run standard h hne
    by_cases hcomment : construct = .comment
    · subst hcomment
      have hline' : '\n' ∉ ')' :: more := by simpa using hline
      obtain rfl := rest_of_comment standard hfirst
      rw [run_nil] at hrest
      cases htake
      cases hrest
      rw [run_of_first (r := r.within below) standard (standard.comment hfirst hline')]
      exact run_nil
    · have hfirst' := standard.ends hfirst hcomment hline
      have hshorter : rest.length < length := hlength ▸ (standard.leaves hfirst).2
      have hfresh' := (commented_of_take htake hcomment).trans hfresh
      rw [run_of_first (r := r.within below) standard hfirst', take_within_of_ok htake]
      exact ih rest.length hshorter hrest hfresh' rfl

/-- **What cannot be read** — it leaves the groups around it open, unless it is refused for closing
one that it has not opened. -/
theorem frames_ne_nil_of_run {e : ReadError} (h : run lexer r text = .error e) (he : e ≠ .unopened)
    (hbelow : below ≠ []) (hrun : run lexer (r.within below) (text ++ [')', '$']) = .ok closed) :
    closed.frames ≠ [] := by
  have hline : '\n' ∉ ['$'] := by decide
  induction hlength : text.length using Nat.strongRecOn generalizing r text with
  | _ length ih =>
    have hne : text ≠ [] := by
      rintro rfl
      rw [run_nil] at h
      cases h
    obtain ⟨construct, rest, next, hfirst', htake', hrest'⟩ :=
      exists_of_run standard hrun (by simp)
    cases hfirst : lexer.first? r.flags text with
    | none =>
      -- what can only be read with the parenthesis takes it in, and nothing closes a group any more
      have hopen : construct ≠ .closing := by
        rintro rfl
        obtain ⟨d, tail, rfl⟩ := List.exists_cons_of_ne_nil hne
        obtain ⟨rfl, -⟩ := List.cons.inj (standard.closing_iff.mp hfirst')
        rw [standard.closing_iff.mpr rfl] at hfirst
        cases hfirst
      have hframes : (r.within below).frames <:+ closed.frames := by
        refine (frames_suffix_of_take htake' hopen).trans ?_
        rcases List.suffix_cons_iff.mp (standard.takes hfirst hline hfirst') with rfl | hrest
        · rw [run_of_first standard (standard.dollar _ _)] at hrest'
          have hlast : run lexer (next.push (.item (standard.stop next.flags))) [] = .ok closed :=
            hrest'
          rw [run_nil] at hlast
          cases hlast
          exact List.suffix_refl _
        · obtain rfl := List.suffix_nil.mp hrest
          rw [run_nil] at hrest'
          cases hrest'
          exact List.suffix_refl _
      intro hnil
      rw [hnil, List.suffix_nil] at hframes
      exact List.append_ne_nil_of_right_ne_nil r.frames hbelow hframes
    | some read =>
      obtain ⟨construct₀, rest₀⟩ := read
      rw [run_of_first standard hfirst] at h
      by_cases hcomment : construct₀ = .comment
      · -- nothing fails behind a comment
        subst hcomment
        obtain rfl := rest_of_comment standard hfirst
        have hlast : run lexer { r with commented := true } [] = .error e := h
        rw [run_nil] at hlast
        cases hlast
      have hsame := standard.ends hfirst hcomment hline
      rw [show lexer.first? r.flags (text ++ [')', '$']) = some (construct, rest) from hfirst']
        at hsame
      cases hsame
      cases htake : r.take construct with
      | error e' =>
        rw [htake] at h
        cases h
        by_cases hclosing : construct = .closing
        · subst hclosing
          exact absurd (error_of_closing htake) he
        · rw [take_within hclosing, htake] at htake'
          cases htake'
      | ok next₀ =>
        rw [htake] at h
        rw [take_within_of_ok htake] at htake'
        cases htake'
        exact ih rest₀.length (hlength ▸ (standard.leaves hfirst).2) h hrest' rfl

end Standard

end Reader

/-! ## Between anchors -/

section Anchors

variable {text : List Char} {tree whole : Tree I G}

theorem Lexer.read_eq_ok_iff :
    lexer.read text = .ok tree ↔
      ∃ last, Reader.run lexer { flags := lexer.plain } text = .ok last ∧ last.frames = [] ∧
        last.branches.tree = tree := by
  unfold read
  cases Reader.run lexer { flags := lexer.plain } text with
  | error e => simp [bind, Except.bind]
  | ok last =>
    by_cases hframes : last.frames = [] <;> simp [bind, Except.bind, Reader.finish, hframes]

/-- **`lexer.EndsInComment text`** — the text ends in a comment, with no line end behind it. -/
def Lexer.EndsInComment (lexer : Lexer F I G) (text : List Char) : Prop :=
  ∃ last, Reader.run lexer { flags := lexer.plain } text = .ok last ∧ last.commented = true

namespace Lexer.Standard

variable (standard : lexer.Standard)

/-- The tree of a pattern between anchors. -/
def anchored (tree : Tree I G) : Tree I G :=
  .seq (.item (standard.start lexer.plain))
    (.seq (.group standard.unnamed tree) (.item (standard.stop lexer.plain)))

/-- The group of the anchors, and what stands before it. -/
def anchorFrame : Frame F I G :=
  ⟨standard.unnamed, { pieces := [.item (standard.start lexer.plain)] }, lexer.plain⟩

theorem run_anchor (pattern : String) :
    Reader.run lexer { flags := lexer.plain } (anchor pattern).toList =
      Reader.run lexer (({ flags := lexer.plain } : Reader F I G).within [standard.anchorFrame])
        (pattern.toList ++ [')', '$']) := by
  have htext : (anchor pattern).toList =
      '^' :: '(' :: '?' :: ':' :: (pattern.toList ++ [')', '$']) := by
    simp [anchor, String.toList_append]
  rw [htext, Reader.run_of_first standard (standard.caret _ _)]
  exact Reader.run_of_first standard (standard.opening _ _)

/-- Behind the pattern there is nothing but the end of the group and of the text. -/
theorem run_close {last : Reader F I G} :
    Reader.run lexer (last.within [standard.anchorFrame]) [')', '$'] =
      ((last.within [standard.anchorFrame]).closeGroup).map fun closed =>
        closed.push (.item (standard.stop closed.flags)) := by
  rw [Reader.run_of_first standard (standard.closing_iff.mpr rfl)]
  show ((last.within [standard.anchorFrame]).closeGroup).bind _ = _
  cases (last.within [standard.anchorFrame]).closeGroup with
  | error e => rfl
  | ok closed =>
    show Reader.run lexer closed ['$'] = _
    rw [Reader.run_of_first standard (standard.dollar _ _)]
    exact Reader.run_nil

/-- **Between anchors** — a pattern that closes no group but its own is read there as by itself, if
it does not end in a comment. -/
theorem read_anchor_iff {pattern : String}
    (hopened : lexer.read pattern.toList ≠ .error .unopened) :
    lexer.read (anchor pattern).toList = .ok whole ↔
      ¬ lexer.EndsInComment pattern.toList ∧
        ∃ tree, lexer.read pattern.toList = .ok tree ∧ whole = standard.anchored tree := by
  rw [read_eq_ok_iff, standard.run_anchor]
  simp only [read_eq_ok_iff]
  cases hrun : Reader.run lexer { flags := lexer.plain } pattern.toList with
  | error e =>
    have he : e ≠ .unopened := by
      rintro rfl
      apply hopened
      rw [Lexer.read, hrun]
      rfl
    constructor
    · rintro ⟨closed, hclosed, hframes, -⟩
      exact absurd hframes
        (Reader.frames_ne_nil_of_run standard hrun he (List.cons_ne_nil _ _) hclosed)
    · rintro ⟨-, tree, ⟨last, hlast, -⟩, -⟩
      cases hlast
  | ok last =>
    have hends : lexer.EndsInComment pattern.toList ↔ last.commented = true := by
      simp [EndsInComment, hrun]
    rw [hends, Reader.run_append standard (by decide) hrun rfl]
    by_cases hcomment : last.commented = true
    · -- the group of the anchors stays open
      rw [if_pos hcomment]
      constructor
      · rintro ⟨closed, hclosed, hframes, -⟩
        cases hclosed
        exact absurd hframes (List.append_ne_nil_of_right_ne_nil _ (List.cons_ne_nil _ _))
      · rintro ⟨hnot, -⟩
        exact absurd hcomment hnot
    rw [if_neg hcomment, standard.run_close]
    by_cases hframes : last.frames = []
    · have hclose : (last.within [standard.anchorFrame]).closeGroup = .ok { last with
          flags := lexer.plain, frames := [],
          branches := standard.anchorFrame.outer.push
            (.group standard.unnamed last.branches.tree) } := by
        unfold Reader.closeGroup Reader.within
        rw [hframes]
        rfl
      rw [hclose]
      simp [Except.map, Reader.push, Branches.push, Branches.tree, Tree.sequence, anchorFrame,
        anchored, hcomment, hframes, eq_comm]
    · -- the parenthesis closes a group of the pattern
      obtain ⟨frame, frames, hcons⟩ := List.exists_cons_of_ne_nil hframes
      constructor
      · rintro ⟨closed, hclosed, hnone, -⟩
        have hwithin : (last.within [standard.anchorFrame]).frames =
            frame :: (frames ++ [standard.anchorFrame]) := by
          rw [Reader.within, hcons]
          rfl
        unfold Reader.closeGroup at hclosed
        rw [hwithin] at hclosed
        cases hclosed
        exact absurd hnone (List.append_ne_nil_of_right_ne_nil _ (List.cons_ne_nil _ _))
      · rintro ⟨-, tree, ⟨last', hlast', hnone, -⟩, -⟩
        cases hlast'
        exact absurd hnone hframes

end Lexer.Standard

end Anchors

end ModalEdit.Regex
