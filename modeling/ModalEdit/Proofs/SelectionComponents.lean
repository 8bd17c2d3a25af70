import Mathlib
import ModalEdit.Proofs.NormalForm

/-!
# Normalizing merges connected components

Two selections meet if their closed ranges share a position, and two selections of a list are
linked if a chain of meeting selections leads from one to the other. Every operation that ends in
`normalize` yields exactly one selection for each class of linked selections
(`merges_components`): it spans its class, looks like the first selection of it, and the main one
is that of the class of the main selection.

The loop `mergeRuns` is followed with the positions that the merged selections had in the list
(`exists_groups`): it cuts the sorted positions into groups, and what it keeps of a group so far is
`Gathers`. A group is linked by construction, and two groups are apart since the merged selections
are, so the groups are the classes.
-/

namespace ModalEdit

namespace Selection

/-- **`s.Meets t`** — the closed ranges of the two selections share a position. -/
def Meets (s t : Selection) : Prop :=
  ∃ c, (s.start ≤ c ∧ c ≤ s.stop) ∧ t.start ≤ c ∧ c ≤ t.stop

variable {s t : Selection}

theorem Meets.symm (h : s.Meets t) : t.Meets s := h.imp fun _ => And.symm

/-- Ranges that share a position both start before the other one stops. -/
theorem Meets.start_le_stop (h : s.Meets t) : t.start ≤ s.stop := by
  obtain ⟨c, ⟨-, hs⟩, ht, -⟩ := h
  exact le_trans ht hs

/-- Of two selections in the order of their starts, the second meets the first if it starts within
it. -/
theorem meets_of_start_le (h : s.start ≤ t.start) (hstop : t.start ≤ s.stop) : s.Meets t :=
  ⟨t.start, ⟨h, hstop⟩, le_rfl, t.start_le_stop⟩

/-- **`s.LooksLike t`** — the selections have the same direction and the same captures. -/
def LooksLike (s t : Selection) : Prop :=
  s.isBackward = t.isBackward ∧ s.captures = t.captures

theorem looksLike_refl (s : Selection) : s.LooksLike s := ⟨rfl, rfl⟩

theorem LooksLike.trans {u : Selection} (h : s.LooksLike t) (h' : t.LooksLike u) :
    s.LooksLike u :=
  ⟨h.1.trans h'.1, h.2.trans h'.2⟩

/-- Merging keeps direction and captures. -/
theorem looksLike_merge (s t : Selection) : (s.merge t).LooksLike s := by
  by_cases hb : s.isBackward = true
  · -- a backward selection covers something, so the wider span is not a point either
    have hlt : s.cursor < s.anchor := of_decide_eq_true hb
    have hspan : min s.start t.start < max s.stop t.stop :=
      lt_of_le_of_lt (le_trans (min_le_left _ _) (min_le_right _ _))
        (lt_of_lt_of_le hlt (le_trans (le_max_left _ _) (le_max_left _ _)))
    refine ⟨?_, by rw [merge, if_pos hb]⟩
    rw [hb, merge, if_pos hb]
    exact decide_eq_true hspan
  · refine ⟨?_, by rw [merge, if_neg hb]⟩
    rw [Bool.not_eq_true] at hb
    rw [hb, merge, hb, if_neg Bool.false_ne_true]
    exact decide_eq_false (not_lt.mpr (start_merge_le_stop_merge s t))

end Selection

namespace SelectionList

/-! ## Linked selections -/

section Positions

variable (selections : List Selection)

/-- **`Linked selections i j`** — a chain of meeting selections leads from the one at `i` to the one
at `j`. -/
def Linked : Fin selections.length → Fin selections.length → Prop :=
  Relation.ReflTransGen fun i j => selections[i].Meets selections[j]

/-- **`Precedes selections i j`** — the selection at `i` starts before the one at `j`, or where that
one does and stands before it in the list. -/
def Precedes (i j : Fin selections.length) : Prop :=
  selections[i].start < selections[j].start ∨ selections[i].start = selections[j].start ∧ i ≤ j

end Positions

variable {selections : List Selection}

theorem Linked.symm {i j : Fin selections.length} (h : Linked selections i j) :
    Linked selections j i := by
  induction h with
  | refl => exact .refl
  | tail _ hmeets ih => exact ih.head hmeets.symm

theorem precedes_refl (i : Fin selections.length) : Precedes selections i i := .inr ⟨rfl, le_rfl⟩

/-- **`l.Components r part`** — `r` has one selection for each class of linked selections of `l`,
and `part` tells which.

The selections of `r` are in text order and apart. Each spans its class exactly and looks like the
first selection of it; the main one is that of the class of the main selection. -/
structure Components (l r : SelectionList)
    (part : Fin l.selections.length → Fin r.selections.length) : Prop where
  linked_iff : ∀ i j, part i = part j ↔ Linked l.selections i j
  ordered : r.selections.Pairwise fun s t => s.stop < t.start
  start : ∀ p, IsLeast {c | ∃ i, part i = p ∧ l.selections[i].start = c} r.selections[p].start
  stop : ∀ p, IsGreatest {c | ∃ i, part i = p ∧ l.selections[i].stop = c} r.selections[p].stop
  /-- Every class has a first selection; so none of the selections of `r` has an empty one. -/
  first : ∀ p, ∃ i, part i = p ∧ (∀ j, part j = p → Precedes l.selections i j) ∧
    r.selections[p].LooksLike l.selections[i]
  main : ∀ h : l.mainIndex < l.selections.length, (part ⟨l.mainIndex, h⟩).val = r.mainIndex

/-! ## The sorted positions -/

variable (l : SelectionList)

/-- The marked selection at a position. -/
def markedAt (i : Fin l.selections.length) : Selection × Bool :=
  (l.selections[i], i.val == l.mainIndex)

/-- The positions in the order in which their selections are merged. -/
def sortedPositions : List (Fin l.selections.length) :=
  (List.finRange l.selections.length).mergeSort fun i j =>
    l.selections[i].start ≤ l.selections[j].start

theorem marked_eq_map : l.marked = (List.finRange l.selections.length).map l.markedAt := by
  refine List.ext_getElem (by simp [marked]) fun i hi hi' => ?_
  simp [marked, markedAt]

theorem sortMarked_marked_eq_map : sortMarked l.marked = l.sortedPositions.map l.markedAt := by
  rw [marked_eq_map, sortMarked, sortedPositions]
  exact (List.map_mergeSort (f := l.markedAt) fun i _ j _ => rfl).symm

theorem mem_sortedPositions (i : Fin l.selections.length) : i ∈ l.sortedPositions := by
  simp [sortedPositions]

theorem nodup_sortedPositions : l.sortedPositions.Nodup :=
  (List.mergeSort_perm _ _).nodup_iff.mpr (List.nodup_finRange _)

/-- Without repetition, one element does not stand both before and behind another. -/
theorem not_sublist_swap {α : Type} {xs : List α} (h : xs.Nodup) {a b : α}
    (hab : [a, b].Sublist xs) : ¬ [b, a].Sublist xs := by
  intro hba
  induction xs with
  | nil => cases hab
  | cons x xs ih =>
    obtain ⟨hx, hxs⟩ := List.nodup_cons.mp h
    rcases List.sublist_cons_iff.mp hab with hab' | ⟨r, hr, hb⟩
    · rcases List.sublist_cons_iff.mp hba with hba' | ⟨r, hr, -⟩
      · exact ih hxs hab' hba'
      · cases hr
        exact hx (hab'.subset (by simp))
    · cases hr
      rcases List.sublist_cons_iff.mp hba with hba' | ⟨r, hr, -⟩
      · exact hx (hba'.subset (by simp))
      · cases hr
        exact hx (hb.subset (by simp))

/-- **Sorting is stable** — the sorted positions are in the order of the starts, and positions with
equal starts in the order of the list. -/
theorem pairwise_sortedPositions : l.sortedPositions.Pairwise (Precedes l.selections) := by
  have htrans : ∀ i j k : Fin l.selections.length,
      decide (l.selections[i].start ≤ l.selections[j].start) = true →
      decide (l.selections[j].start ≤ l.selections[k].start) = true →
      decide (l.selections[i].start ≤ l.selections[k].start) = true := by
    intro i j k hij hjk
    exact decide_eq_true (le_trans (of_decide_eq_true hij) (of_decide_eq_true hjk))
  have htotal : ∀ i j : Fin l.selections.length,
      (decide (l.selections[i].start ≤ l.selections[j].start) ||
        decide (l.selections[j].start ≤ l.selections[i].start)) = true := by
    intro i j
    simpa using le_total l.selections[i].start l.selections[j].start
  refine List.pairwise_iff_forall_sublist.mpr fun {i j} hij => ?_
  have hle : l.selections[i].start ≤ l.selections[j].start :=
    of_decide_eq_true (List.pairwise_iff_forall_sublist.mp
      (List.pairwise_mergeSort htrans htotal _) hij)
  refine (lt_or_eq_of_le hle).imp_right fun heq => ⟨heq, not_lt.mp fun hlt => ?_⟩
  -- had `j` stood before `i` in the list, so it would now
  have hji : [j, i].Sublist (List.finRange l.selections.length) := by
    refine List.sublist_of_subperm_of_pairwise (r := (· ≤ ·)) ?_ (by simp [hlt.le])
      ((List.pairwise_lt_finRange _).imp fun h => h.le)
    exact List.subperm_of_subset (by simp [hlt.ne]) fun k _ => List.mem_finRange k
  exact not_sublist_swap l.nodup_sortedPositions hij
    (List.pair_sublist_mergeSort htrans htotal (decide_eq_true heq.ge) hji)

/-! ## Groups of merged selections -/

variable {l : SelectionList}

/-- **`l.Gathers group r`** — the marked selection `r` is what has been merged of the selections at
the positions of a group, the first of which it looks like. -/
structure Gathers (l : SelectionList) (group : List (Fin l.selections.length))
    (r : Selection × Bool) : Prop where
  head : ∃ i rest, group = i :: rest ∧ r.1.start = l.selections[i].start ∧
    r.1.LooksLike l.selections[i]
  linked : ∀ i ∈ group, ∀ j ∈ group, Linked l.selections i j
  stop_le : ∀ i ∈ group, l.selections[i].stop ≤ r.1.stop
  stop_mem : ∃ i ∈ group, l.selections[i].stop = r.1.stop
  mark : r.2 = group.any fun i => i.val == l.mainIndex

theorem gathers_single (i : Fin l.selections.length) : l.Gathers [i] (l.markedAt i) where
  head := ⟨i, [], rfl, rfl, Selection.looksLike_refl _⟩
  linked := by
    intro j hj k hk
    rw [List.mem_singleton.mp hj, List.mem_singleton.mp hk]
    exact .refl
  stop_le := by
    intro j hj
    rw [List.mem_singleton.mp hj]
    exact le_rfl
  stop_mem := ⟨i, List.mem_singleton_self i, rfl⟩
  mark := by simp [markedAt]

/-- **One merge** — a group takes in the next position if its merged selection touches the one
there. -/
theorem Gathers.merge {group : List (Fin l.selections.length)} {r : Selection × Bool}
    (h : l.Gathers group r) {j : Fin l.selections.length}
    (hsorted : ∀ i ∈ group, l.selections[i].start ≤ l.selections[j].start)
    (htouch : r.1.touches l.selections[j] = true) :
    l.Gathers (group ++ [j]) (r.1.merge l.selections[j], r.2 || (l.markedAt j).2) := by
  obtain ⟨first, rest, hgroup, hstart, hlike⟩ := h.head
  have hfirst : r.1.start ≤ l.selections[j].start := by
    rw [hstart]
    exact hsorted first (by simp [hgroup])
  -- the next selection meets the one that the merged selection has its end from
  obtain ⟨last, hlast, hstop⟩ := h.stop_mem
  have hmeets : l.selections[last].Meets l.selections[j] := by
    refine Selection.meets_of_start_le (hsorted last hlast) ?_
    rw [hstop]
    exact (Selection.touches_iff hfirst).mp htouch
  have hlink : ∀ i ∈ group, Linked l.selections i j := fun i hi =>
    (h.linked i hi last hlast).tail hmeets
  constructor
  case head =>
    refine ⟨first, rest ++ [j], by rw [hgroup, List.cons_append], ?_, ?_⟩
    · rw [Selection.start_merge, min_eq_left hfirst, hstart]
    · exact (Selection.looksLike_merge _ _).trans hlike
  case linked =>
    intro i hi k hk
    rcases List.mem_append.mp hi with hi | hi <;> rcases List.mem_append.mp hk with hk | hk
    · exact h.linked i hi k hk
    · rw [List.mem_singleton.mp hk]
      exact hlink i hi
    · rw [List.mem_singleton.mp hi]
      exact (hlink k hk).symm
    · rw [List.mem_singleton.mp hi, List.mem_singleton.mp hk]
      exact .refl
  case stop_le =>
    intro i hi
    rw [Selection.stop_merge]
    rcases List.mem_append.mp hi with hi | hi
    · exact le_max_of_le_left (h.stop_le i hi)
    · rw [List.mem_singleton.mp hi]
      exact le_max_right _ _
  case stop_mem =>
    rw [Selection.stop_merge]
    rcases le_total r.1.stop l.selections[j].stop with hle | hle
    · exact ⟨j, by simp, (max_eq_right hle).symm⟩
    · exact ⟨last, by simp [hlast], by rw [hstop, max_eq_left hle]⟩
  case mark => simp [h.mark, markedAt]

/-- **The merging loop** — it cuts the sorted positions that are left into groups, the first one of
which continues the current group. -/
theorem exists_groups {rest : List (Fin l.selections.length)}
    {group : List (Fin l.selections.length)} {current : Selection × Bool}
    (hcurrent : l.Gathers group current)
    (hsorted : (group ++ rest).Pairwise (Precedes l.selections)) :
    ∃ groups, groups.flatten = group ++ rest ∧
      List.Forall₂ l.Gathers groups (mergeRuns current (rest.map l.markedAt)) := by
  induction rest generalizing group current with
  | nil => exact ⟨[group], by simp, .cons hcurrent .nil⟩
  | cons next rest ih =>
    rw [List.map_cons, mergeRuns]
    split
    next htouch =>
      rw [List.append_cons] at hsorted ⊢
      refine ih (hcurrent.merge ?_ htouch) hsorted
      intro i hi
      have hprec : Precedes l.selections i next :=
        (List.pairwise_append.mp (List.pairwise_append.mp hsorted).1).2.2 i hi next (by simp)
      exact hprec.elim le_of_lt fun h => h.1.le
    next htouch =>
      obtain ⟨groups, hflat, hgroups⟩ :=
        ih (gathers_single next) (List.pairwise_append.mp hsorted).2.1
      exact ⟨group :: groups, by simpa using hflat, .cons hcurrent hgroups⟩

/-! ## The classes -/

/-- Every position belongs to exactly one of the groups that the sorted positions are cut into. -/
theorem exists_part {groups : List (List (Fin l.selections.length))}
    {merged : List (Selection × Bool)} (hflat : groups.flatten = l.sortedPositions)
    (hgroups : List.Forall₂ l.Gathers groups merged) :
    ∃ part : Fin l.selections.length → Fin merged.length, ∀ p, ∃ group,
      l.Gathers group merged[p] ∧ group.Pairwise (Precedes l.selections) ∧
        ∀ i, i ∈ group ↔ part i = p := by
  have hlen : groups.length = merged.length := hgroups.length_eq
  have hmem : ∀ i, ∃ p : Fin merged.length, i ∈ groups[p.cast hlen.symm] := by
    intro i
    have hi : i ∈ groups.flatten := hflat ▸ mem_sortedPositions l i
    obtain ⟨group, hgroup, hi⟩ := List.mem_flatten.mp hi
    obtain ⟨p, hp, rfl⟩ := List.mem_iff_getElem.mp hgroup
    exact ⟨⟨p, hlen ▸ hp⟩, hi⟩
  have hnodup : groups.flatten.Nodup := hflat ▸ nodup_sortedPositions l
  have hdisjoint := List.pairwise_iff_getElem.mp (List.nodup_flatten.mp hnodup).2
  choose part hpart using hmem
  refine ⟨part, fun p => ⟨groups[p.cast hlen.symm], ?_, ?_, fun i => ⟨fun hi => ?_, ?_⟩⟩⟩
  · exact (List.forall₂_iff_get.mp hgroups).2 p (p.cast hlen.symm).isLt p.isLt
  · have hsub := List.sublist_flatten_of_mem (List.getElem_mem (l := groups) (p.cast hlen.symm).isLt)
    rw [hflat] at hsub
    exact l.pairwise_sortedPositions.sublist hsub
  · -- two groups have no position in common
    rcases lt_trichotomy (part i) p with hlt | heq | hlt
    · exact absurd hi (hdisjoint _ _ _ _ hlt (hpart i))
    · exact heq
    · exact absurd (hpart i) (hdisjoint _ _ _ _ hlt hi)
  · rintro rfl
    exact hpart i

section Group

variable {group : List (Fin l.selections.length)} {r : Selection × Bool}

/-- The first position of a group in order is the one that the merged selection starts with. -/
theorem Gathers.exists_first (h : l.Gathers group r)
    (hsorted : group.Pairwise (Precedes l.selections)) :
    ∃ i ∈ group, (∀ j ∈ group, Precedes l.selections i j) ∧
      r.1.start = l.selections[i].start ∧ r.1.LooksLike l.selections[i] := by
  obtain ⟨i, rest, hgroup, hstart, hlike⟩ := h.head
  rw [hgroup] at hsorted ⊢
  refine ⟨i, List.mem_cons_self, fun j hj => ?_, hstart, hlike⟩
  rcases List.mem_cons.mp hj with rfl | hj
  · exact precedes_refl _
  · exact (List.pairwise_cons.mp hsorted).1 j hj

theorem Gathers.start_le (h : l.Gathers group r)
    (hsorted : group.Pairwise (Precedes l.selections)) {i : Fin l.selections.length}
    (hi : i ∈ group) : r.1.start ≤ l.selections[i].start := by
  obtain ⟨first, -, hfirst, hstart, -⟩ := h.exists_first hsorted
  rw [hstart]
  exact (hfirst i hi).elim le_of_lt fun h => h.1.le

theorem Gathers.mark_iff (h : l.Gathers group r) (hmain : l.mainIndex < l.selections.length) :
    r.2 = true ↔ ⟨l.mainIndex, hmain⟩ ∈ group := by
  rw [h.mark, List.any_eq_true]
  refine ⟨fun ⟨i, hi, heq⟩ => ?_, fun hi => ⟨_, hi, by simp⟩⟩
  rwa [← show i = ⟨l.mainIndex, hmain⟩ from Fin.ext (beq_iff_eq.mp heq)]

/-- What meets is not in two groups, since the first of them ends before the other one starts. -/
theorem Gathers.not_meets (h : l.Gathers group r) {group' : List (Fin l.selections.length)}
    {r' : Selection × Bool} (h' : l.Gathers group' r')
    (hsorted : group'.Pairwise (Precedes l.selections)) (hapart : r.1.stop < r'.1.start)
    {i j : Fin l.selections.length} (hi : i ∈ group) (hj : j ∈ group') :
    ¬ l.selections[i].Meets l.selections[j] := by
  intro hmeets
  have hlt : l.selections[i].stop < l.selections[j].start := calc
    l.selections[i].stop ≤ r.1.stop := h.stop_le i hi
    _ < r'.1.start := hapart
    _ ≤ l.selections[j].start := h'.start_le hsorted hj
  exact absurd hmeets.start_le_stop (not_le.mpr hlt)

end Group

/-- **Groups that are apart are the classes** — if the sorted positions of a list are cut into
groups and the merged selections are apart, these are the components of the list. -/
theorem components_of_groups {groups : List (List (Fin l.selections.length))}
    {merged : List (Selection × Bool)} (hflat : groups.flatten = l.sortedPositions)
    (hgroups : List.Forall₂ l.Gathers groups merged)
    (hsep : merged.Pairwise fun a b => a.1.stop < b.1.start) :
    ∃ part, Components l (ofMarked merged) part := by
  obtain ⟨part, hpart⟩ := exists_part hflat hgroups
  choose group hgather hsorted hmem using hpart
  have hown : ∀ i, i ∈ group (part i) := fun i => (hmem _ i).mpr rfl
  have hlen : merged.length = (ofMarked merged).selections.length := (List.length_map _).symm
  have hget : ∀ p : Fin (ofMarked merged).selections.length,
      (ofMarked merged).selections[p] = merged[p.cast hlen.symm].1 := fun p => List.getElem_map _
  have hcast : ∀ i (p : Fin (ofMarked merged).selections.length),
      (part i).cast hlen = p ↔ i ∈ group (p.cast hlen.symm) := by
    intro i p
    rw [hmem, Fin.ext_iff, Fin.ext_iff]
    rfl
  have hapart : ∀ i j, part i < part j → ¬ l.selections[i].Meets l.selections[j] := by
    intro i j hlt
    have hstop := List.pairwise_iff_getElem.mp hsep _ _ (part i).isLt (part j).isLt hlt
    exact (hgather _).not_meets (hgather _) (hsorted _) hstop (hown i) (hown j)
  refine ⟨fun i => (part i).cast hlen, ?_⟩
  constructor
  case linked_iff =>
    intro i j
    constructor
    · intro h
      exact (hgather (part i)).linked i (hown i) j
        ((hmem _ j).mpr ((Fin.cast_injective hlen) h).symm)
    · intro h
      induction h with
      | refl => rfl
      | @tail j k _ hjk ih =>
        have hle : part j ≤ part k := not_lt.mp fun hlt => hapart k j hlt hjk.symm
        have hge : part k ≤ part j := not_lt.mp fun hlt => hapart j k hlt hjk
        rw [ih, le_antisymm hle hge]
  case ordered => exact List.pairwise_map.mpr hsep
  case start =>
    intro p
    obtain ⟨first, hfirst, -, hstart, -⟩ := (hgather (p.cast hlen.symm)).exists_first (hsorted _)
    refine ⟨⟨first, (hcast _ _).mpr hfirst, by rw [hget, hstart]⟩, ?_⟩
    rintro c ⟨i, hi, rfl⟩
    rw [hget]
    exact (hgather _).start_le (hsorted _) ((hcast _ _).mp hi)
  case stop =>
    intro p
    obtain ⟨last, hlast, hstop⟩ := (hgather (p.cast hlen.symm)).stop_mem
    refine ⟨⟨last, (hcast _ _).mpr hlast, by rw [hget, hstop]⟩, ?_⟩
    rintro c ⟨i, hi, rfl⟩
    rw [hget]
    exact (hgather _).stop_le i ((hcast _ _).mp hi)
  case first =>
    intro p
    obtain ⟨first, hfirst, hleast, -, hlike⟩ :=
      (hgather (p.cast hlen.symm)).exists_first (hsorted _)
    refine ⟨first, (hcast _ _).mpr hfirst, fun j hj => hleast j ((hcast _ _).mp hj), ?_⟩
    rwa [hget]
  case main =>
    intro hmain
    -- the marked group is the one of the main selection, and no other
    have hmark : ∀ p, merged[p].2 = true ↔ part ⟨l.mainIndex, hmain⟩ = p := fun p =>
      ((hgather p).mark_iff hmain).trans (hmem p _)
    refine ((List.findIdx_eq (part ⟨l.mainIndex, hmain⟩).isLt).mpr ⟨(hmark _).mpr rfl, ?_⟩).symm
    intro j hj
    refine Bool.eq_false_iff.mpr fun htrue => ?_
    have heq := (hmark ⟨j, hj.trans (part _).isLt⟩).mp htrue
    exact absurd (congrArg Fin.val heq) hj.ne'

/-- **Normalizing merges components** — every list with a selection has components, which are the
selections of its normal form. -/
theorem exists_components (h : l.selections ≠ []) : ∃ part, Components l (normalize l) part := by
  obtain ⟨first, rest, hsort, hnorm⟩ := exists_normalize h
  have hpositions := sortMarked_marked_eq_map l
  have hsorted := l.pairwise_sortedPositions
  have hsep := sorted_sortMarked l.marked
  rw [hsort] at hpositions hsep
  obtain ⟨i, positions, hcons, rfl, rfl⟩ := List.map_eq_cons_iff.mp hpositions.symm
  rw [hcons] at hsorted
  obtain ⟨groups, hflat, hgroups⟩ := exists_groups (gathers_single i) hsorted
  rw [hnorm]
  exact components_of_groups (hflat.trans hcons.symm) hgroups (separated_mergeRuns hsep).1

/-! ## The operations -/

/-- **`l.Merges r`** — `r` has the components of `l` for its selections, and is `l` itself if that
is valid. -/
structure Merges (l r : SelectionList) : Prop where
  components : ∃ part, Components l r part
  valid_eq : l.validate = .ok () → r = l

theorem merges_normalize (h : l.selections ≠ []) : l.Merges (normalize l) where
  components := exists_components h
  valid_eq := fun hvalid => normalize_of_wellFormed (validate_eq_ok_iff.mp hvalid)

/-- **Making and changing lists merges components** — of every list with a selection and a valid
main index, the operations that end in `normalize` make the list of its connected components, and
none of them changes a list that is valid already. -/
theorem merges_components {selections : List Selection} {mainIndex : Nat}
    (h : mainIndex < selections.length) :
    let l : SelectionList := ⟨selections, mainIndex⟩
    (∃ r, ofList? selections mainIndex = .ok r ∧ l.Merges r) ∧
      (∀ s others, Merges ⟨s :: others, 0⟩ (ofMain s others)) ∧
      (∀ s, Merges ⟨selections ++ [s], mainIndex⟩ (l.push s)) ∧
      (∀ f, Merges ⟨selections.map f, mainIndex⟩ (l.transform f)) ∧
      ∀ f, Merges ⟨selections.map (·.map f), mainIndex⟩ (l.mapCoords f) := by
  have hne : selections ≠ [] := List.ne_nil_of_length_pos (Nat.zero_lt_of_lt h)
  refine ⟨⟨_, ?_, merges_normalize hne⟩, ?_, ?_, ?_, ?_⟩
  · rw [ofList?, if_neg (by simpa using hne), if_neg (not_le.mpr h)]
  · exact fun s others => merges_normalize (List.cons_ne_nil s others)
  · exact fun s => merges_normalize (by simp)
  · exact fun f => merges_normalize (by simpa using hne)
  · exact fun f => merges_normalize (by simpa using hne)

/-- A chain of touching selections, a backward one first, becomes one selection; so do an empty one
and the one it touches. The main selection is in the middle of the chain. -/
theorem merges_components_of_chain :
    let selections : List Selection :=
      [⟨⟨0, 5⟩, ⟨0, 3⟩, ["x"]⟩, ⟨⟨0, 1⟩, ⟨0, 1⟩, []⟩, ⟨⟨0, 5⟩, ⟨1, 0⟩, []⟩, ⟨⟨0, 0⟩, ⟨0, 1⟩, []⟩]
    let merged : SelectionList :=
      ⟨[⟨⟨0, 0⟩, ⟨0, 1⟩, []⟩, ⟨⟨1, 0⟩, ⟨0, 3⟩, ["x"]⟩], 1⟩
    2 < selections.length ∧ ofList? selections 2 = .ok merged ∧ Merges ⟨selections, 2⟩ merged := by
  intro selections merged
  have hmain : 2 < selections.length := by decide
  obtain ⟨⟨r, hr, hmerges⟩, -⟩ := merges_components hmain
  have hrun : ofList? selections 2 = .ok merged := by cbv
  cases hr.symm.trans hrun
  exact ⟨hmain, hrun, hmerges⟩

end SelectionList

end ModalEdit
