import Mathlib.Order.MinMax
import ModalEdit.Proofs.Coordinates
import ModalEdit.SelectionList

/-!
# The normal form of selection lists

A selection list is well formed when its main selection exists and every selection ends before the
next one starts. `validate` accepts exactly these lists (`validate_eq_ok_iff`), `normalize` makes
one of every list with a main selection (`normalize_wellFormed`) and leaves those alone that are
well formed already (`normalize_of_wellFormed`).

Sorting and merging invent no coordinate: whatever holds of both ends of every selection still
holds of both ends of every merged one (`Within.normalize`).
-/

namespace ModalEdit

/-! ## The ends of a selection -/

namespace Selection

variable (s t : Selection)

theorem start_le_stop : s.start ≤ s.stop := le_trans (min_le_left _ _) (le_max_left _ _)

/-- The ends of a selection are its anchor and its cursor, in text order. -/
theorem ends_iff {P : Coord → Prop} : (P s.start ∧ P s.stop) ↔ P s.anchor ∧ P s.cursor := by
  rcases le_total s.anchor s.cursor with h | h
  · rw [start, stop, min_eq_left h, max_eq_right h]
  · rw [start, stop, min_eq_right h, max_eq_left h, and_comm]

theorem start_merge_le_stop_merge : min s.start t.start ≤ max s.stop t.stop :=
  le_trans (min_le_left _ _) (le_trans s.start_le_stop (le_max_left _ _))

@[simp] theorem start_merge : (s.merge t).start = min s.start t.start := by
  unfold merge
  split
  · exact min_eq_right (start_merge_le_stop_merge s t)
  · exact min_eq_left (start_merge_le_stop_merge s t)

@[simp] theorem stop_merge : (s.merge t).stop = max s.stop t.stop := by
  unfold merge
  split
  · exact max_eq_left (start_merge_le_stop_merge s t)
  · exact max_eq_right (start_merge_le_stop_merge s t)

theorem start_map {f : Coord → Coord} (hf : Monotone f) : (s.map f).start = f s.start :=
  (hf.map_min).symm

theorem stop_map {f : Coord → Coord} (hf : Monotone f) : (s.map f).stop = f s.stop :=
  (hf.map_max).symm

variable {s t}

/-- Of two selections in the order of their starts, the second touches the first unless it starts
behind it. -/
theorem touches_iff (h : s.start ≤ t.start) : s.touches t = true ↔ t.start ≤ s.stop := by
  simp only [touches, Bool.and_eq_true, decide_eq_true_eq]
  exact and_iff_left (le_trans h t.start_le_stop)

end Selection

namespace SelectionList

/-! ## Well-formed lists -/

/-- **`l.WellFormed`** — the main selection exists, and each selection ends before the next one
starts. -/
structure WellFormed (l : SelectionList) : Prop where
  main_lt : l.mainIndex < l.length
  separated : l.selections.Pairwise fun s t => s.stop < t.start

theorem firstOverlap?_eq_none_iff {index : Nat} {selections : List Selection} :
    firstOverlap? index selections = none ↔
      selections.Pairwise fun s t => s.stop < t.start := by
  fun_induction firstOverlap? index selections with
  | case1 index s t rest h =>
    simp only [reduceCtorEq, List.pairwise_cons, false_iff]
    exact fun hp => absurd (hp.1 t (by simp)) (not_lt.mpr h)
  | case2 index s t rest h ih =>
    rw [ih, List.pairwise_cons (a := s)]
    refine ⟨fun hp => ⟨?_, hp⟩, fun hp => hp.2⟩
    intro u hu
    -- what comes after `t` starts behind it, and so behind `s`
    rcases List.mem_cons.mp hu with rfl | hu
    · exact not_le.mp h
    · have htu := (List.pairwise_cons.mp hp).1 u hu
      exact lt_trans (not_le.mp h) (lt_of_le_of_lt t.start_le_stop htu)
  | case3 selections index h =>
    match selections, h with
    | [], _ => simp
    | [s], _ => simp
    | s :: t :: rest, h => exact absurd rfl (h s t rest)

/-- **`validate` accepts exactly the well-formed lists.** -/
theorem validate_eq_ok_iff {l : SelectionList} : l.validate = .ok () ↔ l.WellFormed := by
  unfold validate
  constructor
  · intro h
    split at h
    · cases h
    split at h
    · cases h
    next hmain =>
      split at h
      · cases h
      next hnone => exact ⟨not_le.mp hmain, firstOverlap?_eq_none_iff.mp hnone⟩
  · intro h
    have hne : ¬ l.selections.isEmpty = true := by
      intro he
      have hmain := h.main_lt
      simp [length, List.isEmpty_iff.mp he] at hmain
    rw [if_neg hne, if_neg (not_le.mpr h.main_lt), firstOverlap?_eq_none_iff.mpr h.separated]

/-! ## Merging -/

theorem sorted_sortMarked (entries : List (Selection × Bool)) :
    (sortMarked entries).Pairwise fun a b => a.1.start ≤ b.1.start := by
  unfold sortMarked
  refine (List.pairwise_mergeSort ?_ ?_ entries).imp of_decide_eq_true
  · intro a b c hab hbc
    exact decide_eq_true (le_trans (of_decide_eq_true hab) (of_decide_eq_true hbc))
  · intro a b
    simpa using le_total a.1.start b.1.start

/-- **Merging separates** — of selections in the order of their starts, the merged ones end before
the next one starts, and none starts before the first. -/
theorem separated_mergeRuns {current : Selection × Bool} {rest : List (Selection × Bool)}
    (h : (current :: rest).Pairwise fun a b => a.1.start ≤ b.1.start) :
    (mergeRuns current rest).Pairwise (fun a b => a.1.stop < b.1.start) ∧
      ∀ r ∈ mergeRuns current rest, current.1.start ≤ r.1.start := by
  induction rest generalizing current with
  | nil => simp [mergeRuns]
  | cons next rest ih =>
    obtain ⟨hcurrent, hrest⟩ := List.pairwise_cons.mp h
    have hnext : current.1.start ≤ next.1.start := hcurrent next (by simp)
    unfold mergeRuns
    split
    next htouch =>
      -- the merged selection takes the place of the current one, and starts where that one does
      have hmerge : (current.1.merge next.1).start = current.1.start := by
        rw [Selection.start_merge, min_eq_left hnext]
      have := @ih (current.1.merge next.1, current.2 || next.2) (by
        refine List.pairwise_cons.mpr ⟨fun r hr => ?_, (List.pairwise_cons.mp hrest).2⟩
        rw [hmerge]
        exact hcurrent r (List.mem_cons_of_mem _ hr))
      rwa [hmerge] at this
    next htouch =>
      rw [Selection.touches_iff hnext, not_le] at htouch
      obtain ⟨hsep, hfirst⟩ := ih hrest
      refine ⟨List.pairwise_cons.mpr ⟨fun r hr => lt_of_lt_of_le htouch (hfirst r hr), hsep⟩, ?_⟩
      intro r hr
      rcases List.mem_cons.mp hr with rfl | hr
      · exact le_rfl
      · exact le_trans hnext (hfirst r hr)

/-- Merging invents no coordinate. -/
theorem ends_mergeRuns {P : Coord → Prop} {current : Selection × Bool}
    {rest : List (Selection × Bool)} (h : ∀ r ∈ current :: rest, P r.1.start ∧ P r.1.stop) :
    ∀ r ∈ mergeRuns current rest, P r.1.start ∧ P r.1.stop := by
  induction rest generalizing current with
  | nil => simpa [mergeRuns] using h
  | cons next rest ih =>
    obtain ⟨hcurrent, hnext, hrest⟩ :
        (P current.1.start ∧ P current.1.stop) ∧ (P next.1.start ∧ P next.1.stop) ∧
          ∀ r ∈ rest, P r.1.start ∧ P r.1.stop := by simpa using h
    unfold mergeRuns
    split
    · refine ih (List.forall_mem_cons.mpr ⟨?_, hrest⟩)
      rw [Selection.start_merge, Selection.stop_merge]
      exact ⟨min_rec' P hcurrent.1 hnext.1, max_rec' P hcurrent.2 hnext.2⟩
    · exact List.forall_mem_cons.mpr ⟨hcurrent, ih (List.forall_mem_cons.mpr ⟨hnext, hrest⟩)⟩

/-- A merged selection is marked if one of its parts was, so no mark is lost. -/
theorem any_mergeRuns (current : Selection × Bool) (rest : List (Selection × Bool)) :
    (mergeRuns current rest).any (·.2) = (current.2 || rest.any (·.2)) := by
  induction rest generalizing current with
  | nil => simp [mergeRuns]
  | cons next rest ih =>
    unfold mergeRuns
    split
    · simp [ih, Bool.or_assoc]
    · simp [ih]

theorem any_marked {l : SelectionList} (h : l.mainIndex < l.length) :
    l.marked.any (·.2) = true := by
  refine List.any_eq_true.mpr ⟨(l.selections[l.mainIndex], true), ?_, rfl⟩
  refine List.mem_map.mpr ⟨(l.selections[l.mainIndex], l.mainIndex), ?_, by simp⟩
  exact List.mk_mem_zipIdx_iff_getElem?.mpr (List.getElem?_eq_getElem h)

theorem map_fst_marked (l : SelectionList) : l.marked.map (·.1) = l.selections := by
  rw [marked, List.map_map]
  exact List.zipIdx_map_fst 0 l.selections

/-! ## Normalizing -/

/-- The sorted marked selections of a list that has any, and what normalizing makes of them. -/
theorem exists_normalize {l : SelectionList} (h : l.selections ≠ []) :
    ∃ first rest, sortMarked l.marked = first :: rest ∧
      normalize l = ofMarked (mergeRuns first rest) := by
  unfold normalize
  split
  next hnil =>
    -- sorting and marking lose nothing, so what has an empty result was empty
    have hlen : (sortMarked l.marked).length = l.selections.length := by
      rw [sortMarked, List.length_mergeSort, ← map_fst_marked l, List.length_map]
    rw [hnil] at hlen
    exact absurd (List.length_eq_zero_iff.mp hlen.symm) h
  next first rest hcons => exact ⟨first, rest, hcons, rfl⟩

theorem ne_nil_of_main_lt {l : SelectionList} (h : l.mainIndex < l.length) : l.selections ≠ [] :=
  fun hnil => by simp [length, hnil] at h

theorem normalize_wellFormed {l : SelectionList} (h : l.mainIndex < l.length) :
    (normalize l).WellFormed := by
  obtain ⟨first, rest, hsort, hnorm⟩ := exists_normalize (ne_nil_of_main_lt h)
  have hsorted := sorted_sortMarked l.marked
  rw [hsort] at hsorted
  rw [hnorm]
  constructor
  -- the mark of the main selection survives sorting and merging, so it is found again
  · have hany : (mergeRuns first rest).any (·.2) = true := by
      have hcons : (first :: rest).any (·.2) = true := by
        rw [← hsort, ← any_marked h]
        exact (List.mergeSort_perm _ _).any_eq
      rw [any_mergeRuns, ← hcons, List.any_cons]
    rw [List.any_eq_true] at hany
    simpa [ofMarked, length] using List.findIdx_lt_length_of_exists hany
  · exact List.pairwise_map.mpr (separated_mergeRuns hsorted).1

/-! ## Lists that are in normal form already -/

theorem mergeRuns_of_separated {current : Selection × Bool} {rest : List (Selection × Bool)}
    (h : (current :: rest).Pairwise fun a b => a.1.stop < b.1.start) :
    mergeRuns current rest = current :: rest := by
  induction rest generalizing current with
  | nil => rfl
  | cons next rest ih =>
    obtain ⟨hcurrent, hrest⟩ := List.pairwise_cons.mp h
    have hlt : current.1.stop < next.1.start := hcurrent next (by simp)
    have hle : current.1.start ≤ next.1.start := le_trans current.1.start_le_stop hlt.le
    have htouch : ¬ current.1.touches next.1 = true := by
      rw [Selection.touches_iff hle]
      exact not_le.mpr hlt
    rw [mergeRuns, if_neg htouch, ih hrest]

theorem WellFormed.separated_marked {l : SelectionList} (h : l.WellFormed) :
    l.marked.Pairwise fun a b => a.1.stop < b.1.start := by
  have hsep := h.separated
  rwa [← map_fst_marked, List.pairwise_map] at hsep

theorem WellFormed.sortMarked_marked {l : SelectionList} (h : l.WellFormed) :
    sortMarked l.marked = l.marked := by
  refine List.mergeSort_of_pairwise (h.separated_marked.imp fun {a b} hab => ?_)
  exact decide_eq_true (le_trans a.1.start_le_stop hab.le)

/-- The main selection is the first marked one, being the only one. -/
theorem findIdx_marked {l : SelectionList} (h : l.mainIndex < l.length) :
    l.marked.findIdx (·.2) = l.mainIndex := by
  have hlen : l.mainIndex < l.marked.length := by simpa [marked, length] using h
  refine (List.findIdx_eq hlen).mpr ⟨by simp [marked], fun j hj => ?_⟩
  simp [marked, hj.ne]

/-- **Normalizing is idempotent** — a well-formed list is left as it is. -/
theorem normalize_of_wellFormed {l : SelectionList} (h : l.WellFormed) : normalize l = l := by
  obtain ⟨first, rest, hsort, hnorm⟩ := exists_normalize (ne_nil_of_main_lt h.main_lt)
  rw [h.sortMarked_marked] at hsort
  have hsep := h.separated_marked
  rw [hsort] at hsep
  rw [hnorm, mergeRuns_of_separated hsep, ← hsort, ofMarked, map_fst_marked,
    findIdx_marked h.main_lt]

/-! ## What holds of all ends -/

/-- **`l.Within P`** — both ends of every selection satisfy `P`. -/
def Within (P : Coord → Prop) (l : SelectionList) : Prop :=
  ∀ s ∈ l.selections, P s.anchor ∧ P s.cursor

variable {P Q : Coord → Prop} {l : SelectionList}

theorem Within.normalize (h : l.Within P) : l.normalize.Within P := by
  by_cases hnil : l.selections = []
  · simp [Within, SelectionList.normalize, marked, sortMarked, hnil]
  obtain ⟨first, rest, hsort, hnorm⟩ := exists_normalize hnil
  have hends : ∀ r ∈ first :: rest, P r.1.start ∧ P r.1.stop := by
    intro r hr
    rw [← hsort, sortMarked, List.mem_mergeSort] at hr
    have hmem : r.1 ∈ l.selections := map_fst_marked l ▸ List.mem_map_of_mem hr
    exact r.1.ends_iff.mpr (h _ hmem)
  intro s hs
  rw [hnorm] at hs
  obtain ⟨r, hr, rfl⟩ := List.mem_map.mp hs
  exact r.1.ends_iff.mp (ends_mergeRuns hends r hr)

theorem Within.mapCoords {f : Coord → Coord} (h : l.Within P) (hf : ∀ c, P c → Q (f c)) :
    (l.mapCoords f).Within Q := by
  refine Within.normalize ?_
  intro s hs
  obtain ⟨t, ht, rfl⟩ := List.mem_map.mp hs
  exact ⟨hf _ (h t ht).1, hf _ (h t ht).2⟩

/-- Moving coordinates makes a well-formed list of every list with a main selection. -/
theorem mapCoords_wellFormed (f : Coord → Coord) (h : l.mainIndex < l.length) :
    (l.mapCoords f).WellFormed :=
  normalize_wellFormed (by simpa [length] using h)

theorem single_wellFormed (s : Selection) : (single s).WellFormed :=
  ⟨by simp [single, length], by simp [single]⟩

@[simp] theorem mapCoords_single (f : Coord → Coord) (s : Selection) :
    (single s).mapCoords f = single (s.map f) :=
  normalize_of_wellFormed (single_wellFormed _)

end SelectionList

end ModalEdit
