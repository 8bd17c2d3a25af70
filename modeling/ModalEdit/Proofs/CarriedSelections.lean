import Mathlib.Data.Nat.Count
import ModalEdit.Document.Event
import ModalEdit.Proofs.NormalForm

/-!
# Where the selections of a list go

A tracker moves its selections through one event after the other and merges those that come to
touch. `Joins xs ys` says what is left of selections `xs` when runs of touching ones are merged:
each of `ys` starts where the first selection of its run does and stops where the last one does.
Merging early and merging late come to the same (`Joins.mergeRuns`), so the tracked list after any
number of events is what merging once makes of the carried selections (`joins_follow`).

A selection stays *apart* when none before it has come to touch it. The tracked list has one
selection for each that stays apart, in order (`Joins.exists_apart`, `Joins.length_eq`).
-/

namespace ModalEdit

/-! ## Runs of touching selections -/

/-- **`Joins xs ys`** — `ys` are the runs of touching selections of `xs`. -/
inductive Joins : List Selection → List Selection → Prop
  | nil : Joins [] []
  /-- The first selection does not touch the next one. -/
  | alone (x : Selection) {xs ys : List Selection} :
    Joins xs ys → (∀ t ∈ xs.head?, x.stop < t.start) → Joins (x :: xs) (x :: ys)
  /-- The first selection touches the next one, and so extends its run. -/
  | joined (x : Selection) {t y z : Selection} {xs ys : List Selection} :
    Joins (t :: xs) (y :: ys) → t.start ≤ x.stop → z.start = x.start → z.stop = y.stop →
      Joins (x :: t :: xs) (z :: ys)

/-- **`InOrder xs`** — each selection stops before or where the next one starts. -/
def InOrder (xs : List Selection) : Prop := xs.Pairwise fun s t => s.stop ≤ t.start

theorem InOrder.map {xs : List Selection} {f : Coord → Coord} (h : InOrder xs) (hf : Monotone f) :
    InOrder (xs.map (·.map f)) := by
  refine List.pairwise_map.mpr (h.imp fun {s t} hst => ?_)
  rw [Selection.stop_map s hf, Selection.start_map t hf]
  exact hf hst

namespace SelectionList

theorem WellFormed.inOrder {l : SelectionList} (h : l.WellFormed) : InOrder l.selections :=
  h.separated.imp le_of_lt

theorem WellFormed.joins {l : SelectionList} (h : l.WellFormed) :
    Joins l.selections l.selections := by
  have hsep := h.separated
  generalize l.selections = xs at hsep
  induction xs with
  | nil => exact .nil
  | cons x xs ih =>
    obtain ⟨hx, hxs⟩ := List.pairwise_cons.mp hsep
    exact .alone x (ih hxs) fun t ht => hx t (List.mem_of_mem_head? ht)

/-- Merging looks at nothing of the current selection but where it stops: one that starts earlier
leads to the same list with an earlier start of the first selection. -/
theorem mergeRuns_extend {first wider : Selection × Bool} {rest : List (Selection × Bool)}
    (hsorted : (first :: rest).Pairwise fun a b => a.1.start ≤ b.1.start)
    (hstart : wider.1.start ≤ first.1.start) (hstop : wider.1.stop = first.1.stop) :
    ∃ y z merged, mergeRuns first rest = y :: merged ∧ mergeRuns wider rest = z :: merged ∧
      y.1.start = first.1.start ∧ z.1.start = wider.1.start ∧ z.1.stop = y.1.stop := by
  induction rest generalizing first wider with
  | nil => exact ⟨first, wider, [], rfl, rfl, rfl, rfl, hstop⟩
  | cons next rest ih =>
    obtain ⟨hfirst, hrest⟩ := List.pairwise_cons.mp hsorted
    have hnext : first.1.start ≤ next.1.start := hfirst next (by simp)
    have htouch : wider.1.touches next.1 = first.1.touches next.1 := by
      rw [Bool.eq_iff_iff, Selection.touches_iff (le_trans hstart hnext),
        Selection.touches_iff hnext, hstop]
    simp only [mergeRuns, htouch]
    split
    · have hmerge := @ih (first.1.merge next.1, first.2 || next.2)
        (wider.1.merge next.1, wider.2 || next.2)
      simp only [Selection.start_merge, Selection.stop_merge, min_eq_left hnext,
        min_eq_left (le_trans hstart hnext), hstop] at hmerge
      refine hmerge ?_ hstart trivial
      refine List.pairwise_cons.mpr ⟨fun r hr => ?_, (List.pairwise_cons.mp hrest).2⟩
      rw [Selection.start_merge, min_eq_left hnext]
      exact hfirst r (List.mem_cons_of_mem _ hr)
    · exact ⟨first, wider, _, rfl, rfl, rfl, rfl, hstop⟩

end SelectionList

theorem Joins.exists_head {xs ys : List Selection} {y : Selection} (h : Joins xs (y :: ys)) :
    ∃ x rest, xs = x :: rest ∧ y.start = x.start := by
  cases h with
  | alone x _ _ => exact ⟨_, _, rfl, rfl⟩
  | joined x _ _ hstart _ => exact ⟨_, _, rfl, hstart⟩

theorem sorted_of_inOrder {entries : List (Selection × Bool)} {ys : List Selection}
    {f : Coord → Coord} (hf : Monotone f) (hys : InOrder ys)
    (hentries : entries.map (·.1) = ys.map (·.map f)) :
    entries.Pairwise fun a b => a.1.start ≤ b.1.start := by
  have hmapped := hys.map hf
  rw [← hentries, InOrder, List.pairwise_map] at hmapped
  exact hmapped.imp fun {a b} hab => le_trans a.1.start_le_stop hab

/-- A selection that stops before or where the runs behind it start is a run of its own, or it
extends the first of them. -/
theorem Joins.prepend {x t : Selection} {xs : List Selection} {mark : Bool}
    {next : Selection × Bool} {rest : List (Selection × Bool)}
    (h : Joins (t :: xs) ((SelectionList.mergeRuns next rest).map (·.1)))
    (hsorted : (next :: rest).Pairwise fun a b => a.1.start ≤ b.1.start)
    (hstart : next.1.start = t.start) (hle : x.stop ≤ t.start) :
    Joins (x :: t :: xs) ((SelectionList.mergeRuns (x, mark) (next :: rest)).map (·.1)) := by
  have hnext : x.start ≤ next.1.start := hstart ▸ le_trans x.start_le_stop hle
  have htouches := Selection.touches_iff hnext
  rw [hstart] at htouches
  rw [SelectionList.mergeRuns]
  split
  next htouch =>
    have hstop : (x.merge next.1).stop = next.1.stop := by
      rw [Selection.stop_merge]
      exact max_eq_right (le_trans hle (hstart ▸ next.1.start_le_stop))
    have hmerge : (x.merge next.1).start = x.start := by
      rw [Selection.start_merge, min_eq_left hnext]
    obtain ⟨u, v, merged, hu, hv, -, hvstart, hvstop⟩ :=
      @SelectionList.mergeRuns_extend next (x.merge next.1, mark || next.2) rest hsorted
        (hmerge ▸ hnext) hstop
    rw [hu] at h
    rw [hv]
    exact .joined x h (htouches.mp htouch) (hvstart.trans hmerge) hvstop
  next htouch =>
    refine .alone x h ?_
    simpa using not_le.mp (htouches.not.mp htouch)

/-- **Merging early and merging late come to the same** — moving runs that were merged already, and
merging what then touches, leaves the runs of the moved selections. -/
theorem Joins.mergeRuns {xs ys : List Selection} {f : Coord → Coord} (h : Joins xs ys)
    (hf : Monotone f) (hxs : InOrder xs) (hys : InOrder ys) {first : Selection × Bool}
    {rest : List (Selection × Bool)} (hentries : (first :: rest).map (·.1) = ys.map (·.map f)) :
    Joins (xs.map (·.map f)) ((SelectionList.mergeRuns first rest).map (·.1)) := by
  induction h generalizing first rest with
  | nil => simp at hentries
  | @alone x xs ys h hx ih =>
    obtain ⟨first, mark⟩ := first
    obtain ⟨hfirst, hrest⟩ := List.cons.inj hentries
    obtain rfl : first = x.map f := hfirst
    obtain ⟨hxt, hxs⟩ := List.pairwise_cons.mp hxs
    obtain ⟨-, hys⟩ := List.pairwise_cons.mp hys
    -- `x` was a run of its own; once moved it may touch the run behind it
    rcases rest with _ | ⟨next, rest⟩
    · obtain rfl : ys = [] := by simpa using hrest
      cases h
      exact .alone _ .nil (by simp)
    · rcases ys with _ | ⟨y, ys⟩
      · simp at hrest
      obtain ⟨t, xs, rfl, hy⟩ := h.exists_head
      have hnext : next.1 = y.map f := (List.cons.inj hrest).1
      refine (ih hxs hys hrest).prepend (sorted_of_inOrder hf hys hrest) ?_ ?_
      · rw [hnext, Selection.start_map y hf, Selection.start_map t hf, hy]
      · rw [Selection.stop_map x hf, Selection.start_map t hf]
        exact hf (hxt t (by simp))
  | @joined x t y z xs ys h htouch hstart hstop ih =>
    obtain ⟨first, mark⟩ := first
    obtain ⟨hfirst, hrest⟩ := List.cons.inj hentries
    obtain rfl : first = z.map f := hfirst
    obtain ⟨hxt, hxs⟩ := List.pairwise_cons.mp hxs
    -- `x` belongs to a run: that of the selections behind it, made wider
    have hys : InOrder (y :: ys) := by
      obtain ⟨hz, hys⟩ := List.pairwise_cons.mp hys
      exact List.pairwise_cons.mpr ⟨fun u hu => hstop ▸ hz u hu, hys⟩
    have hinner : ((y.map f, mark) :: rest).map (·.1) = (y :: ys).map (·.map f) := by
      rw [List.map_cons, hrest, List.map_cons]
    have hy : (z.map f).start ≤ (y.map f).start := by
      obtain ⟨t', xs', heq, hyt⟩ := h.exists_head
      obtain ⟨rfl, rfl⟩ := List.cons.inj heq
      rw [Selection.start_map z hf, Selection.start_map y hf, hstart, hyt]
      exact hf (le_trans x.start_le_stop (hxt _ (by simp)))
    have hz : (z.map f).stop = (y.map f).stop := by
      rw [Selection.stop_map z hf, Selection.stop_map y hf, hstop]
    obtain ⟨u, v, merged, hu, hv, -, hvstart, hvstop⟩ :=
      @SelectionList.mergeRuns_extend (y.map f, mark) (z.map f, mark) rest
        (sorted_of_inOrder hf hys hinner) hy hz
    have hlater := ih hxs hys hinner
    rw [hu] at hlater
    rw [hv]
    refine .joined _ hlater ?_ ?_ hvstop
    · rw [Selection.start_map t hf, Selection.stop_map x hf]
      exact hf htouch
    · rw [hvstart, Selection.start_map z hf, Selection.start_map x hf, hstart]

/-! ## Through many events -/

/-- Where a coordinate goes through events, one after the other. -/
def carryAll (events : List Event) (c : Coord) : Coord :=
  events.foldl (fun c event => event.carry c) c

theorem carryAll_concat (events : List Event) (event : Event) (c : Coord) :
    carryAll (events ++ [event]) c = event.carry (carryAll events c) := by
  simp [carryAll]

theorem carryAll_append (events later : List Event) (c : Coord) :
    carryAll (events ++ later) c = carryAll later (carryAll events c) := by
  simp [carryAll]

theorem carryAll_monotone {events : List Event} (h : ∀ event ∈ events, Monotone event.carry) :
    Monotone (carryAll events) := by
  induction events with
  | nil => exact monotone_id
  | cons event events ih =>
    obtain ⟨hevent, hevents⟩ := List.forall_mem_cons.mp h
    exact (ih hevents).comp hevent

namespace SelectionList

/-- A list that is moved through events, one after the other. -/
def follow (l : SelectionList) (events : List Event) : SelectionList := events.foldl carry l

theorem follow_concat (l : SelectionList) (events : List Event) (event : Event) :
    l.follow (events ++ [event]) = (l.follow events).carry event := by
  simp [follow]

theorem follow_append (l : SelectionList) (events later : List Event) :
    l.follow (events ++ later) = (l.follow events).follow later := by
  simp [follow]

theorem joins_mapCoords {l : SelectionList} {xs : List Selection} {f : Coord → Coord}
    (h : Joins xs l.selections) (hl : l.WellFormed) (hxs : InOrder xs) (hf : Monotone f) :
    Joins (xs.map (·.map f)) (l.mapCoords f).selections := by
  have hne : l.selections.map (·.map f) ≠ [] := by simpa using ne_nil_of_main_lt hl.main_lt
  obtain ⟨first, rest, hsort, hnormalize⟩ :=
    exists_normalize (l := { l with selections := l.selections.map (·.map f) }) hne
  have hmarked := map_fst_marked { l with selections := l.selections.map (·.map f) }
  have hsorted := sorted_of_inOrder hf hl.inOrder hmarked
  rw [sortMarked, List.mergeSort_of_pairwise (hsorted.imp fun hab => decide_eq_true hab)] at hsort
  rw [hsort] at hmarked
  rw [mapCoords, transform, hnormalize]
  exact h.mergeRuns hf hxs hl.inOrder hmarked

/-- **The tracked list** — after any number of events it holds the runs of the selections that the
tracker started with, each carried through all the events. -/
theorem joins_follow {l : SelectionList} (hl : l.WellFormed) {events : List Event}
    (h : ∀ event ∈ events, Monotone event.carry) :
    Joins (l.selections.map (·.map (carryAll events))) (l.follow events).selections ∧
      (l.follow events).WellFormed := by
  induction events using List.reverseRecOn with
  | nil =>
    show Joins (l.selections.map id) l.selections ∧ l.WellFormed
    rw [List.map_id]
    exact ⟨hl.joins, hl⟩
  | append_singleton events event ih =>
    obtain ⟨hevents, hevent⟩ := List.forall_mem_append.mp h
    obtain ⟨hjoins, hwell⟩ := ih hevents
    have horder := hl.inOrder.map (carryAll_monotone hevents)
    have hstep := joins_mapCoords hjoins hwell horder (hevent event (by simp))
    rw [follow_concat]
    refine ⟨?_, mapCoords_wellFormed _ hwell.main_lt⟩
    simpa [Selection.map, carryAll_concat, carry, Function.comp_def] using hstep

end SelectionList

/-! ## Selections that stay apart -/

/-- **`Apart xs i`** — there is an `i`-th selection, and it starts behind the one before it. -/
def Apart (xs : List Selection) : Nat → Prop
  | 0 => 0 < xs.length
  | i + 1 => ∃ h : i + 1 < xs.length, xs[i].stop < xs[i + 1].start

instance (xs : List Selection) : DecidablePred (Apart xs)
  | 0 => inferInstanceAs (Decidable (0 < xs.length))
  | i + 1 => inferInstanceAs (Decidable (∃ h : i + 1 < xs.length, xs[i].stop < xs[i + 1].start))

/-- **`IsImage xs i y`** — `y` starts where the `i`-th selection does and covers it; it is that
selection unless the next one touches it. -/
def IsImage (xs : List Selection) (i : Nat) (y : Selection) : Prop :=
  ∃ t, xs[i]? = some t ∧ y.start = t.start ∧ t.stop ≤ y.stop ∧
    ((i + 1 < xs.length → Apart xs (i + 1)) → y = t)

theorem apart_lt {xs : List Selection} {i : Nat} (h : Apart xs i) : i < xs.length := by
  cases i with
  | zero => exact h
  | succ i => exact h.1

/-- Who touches goes on touching. -/
theorem apart_of_apart_map {xs : List Selection} {f : Coord → Coord} (hf : Monotone f) {i : Nat}
    (h : Apart (xs.map (·.map f)) i) : Apart xs i := by
  cases i with
  | zero => simpa [Apart] using h
  | succ i =>
    obtain ⟨hlt, hgap⟩ := h
    rw [List.getElem_map, List.getElem_map, Selection.stop_map _ hf,
      Selection.start_map _ hf] at hgap
    exact ⟨by simpa using hlt, hf.reflect_lt hgap⟩

theorem SelectionList.WellFormed.apart {l : SelectionList} (h : l.WellFormed) {i : Nat}
    (hi : i < l.length) : Apart l.selections i := by
  cases i with
  | zero => exact hi
  | succ i =>
    have hpairs := List.pairwise_iff_getElem.mp h.separated
    exact ⟨hi, hpairs i (i + 1) _ _ (Nat.lt_succ_self i)⟩

theorem apart_cons_of_alone {x : Selection} {xs : List Selection}
    (hx : ∀ t ∈ xs.head?, x.stop < t.start) (i : Nat) : Apart (x :: xs) (i + 1) ↔ Apart xs i := by
  cases i with
  | zero =>
    cases xs with
    | nil => simp [Apart]
    | cons t xs => simpa [Apart] using hx
  | succ i => simp [Apart]

theorem apart_cons_cons (x t : Selection) (xs : List Selection) (i : Nat) :
    Apart (x :: t :: xs) (i + 2) ↔ Apart (t :: xs) (i + 1) := by
  simp [Apart]

theorem count_apart_cons_of_alone {x : Selection} {xs : List Selection}
    (hx : ∀ t ∈ xs.head?, x.stop < t.start) (i : Nat) :
    Nat.count (Apart (x :: xs)) (i + 1) = Nat.count (Apart xs) i + 1 := by
  rw [Nat.count_succ', if_pos (by simp [Apart])]
  congr 1
  simp only [apart_cons_of_alone hx]

theorem count_apart_cons_of_joined {x t : Selection} {xs : List Selection}
    (htouch : t.start ≤ x.stop) (i : Nat) :
    Nat.count (Apart (x :: t :: xs)) (i + 2) = Nat.count (Apart (t :: xs)) (i + 1) := by
  have hfirst : ¬ Apart (x :: t :: xs) 1 := by simpa [Apart] using htouch
  rw [Nat.count_succ', Nat.count_succ', Nat.count_succ', if_neg hfirst, if_pos (by simp [Apart]),
    if_pos (by simp [Apart])]
  simp only [apart_cons_cons, Nat.add_assoc, Nat.reduceAdd]

namespace Joins

variable {xs ys : List Selection}

/-- **One for each that stays apart** — every run is the image of the selection that it starts with,
and runs are in the order of these. -/
theorem exists_apart (h : Joins xs ys) (hxs : InOrder xs) {k : Nat} {y : Selection}
    (hy : ys[k]? = some y) :
    ∃ i, Apart xs i ∧ Nat.count (Apart xs) i = k ∧ IsImage xs i y := by
  induction h generalizing k y with
  | nil => simp at hy
  | @alone x xs ys h hx ih =>
    obtain ⟨-, hxs⟩ := List.pairwise_cons.mp hxs
    cases k with
    | zero =>
      obtain rfl : x = y := by simpa using hy
      exact ⟨0, by simp [Apart], by simp, x, rfl, rfl, le_rfl, fun _ => rfl⟩
    | succ k =>
      obtain ⟨i, hi, hcount, t, ht, hstart, hstop, halone⟩ := ih hxs hy
      refine ⟨i + 1, (apart_cons_of_alone hx i).mpr hi, ?_, t, ht, hstart, hstop, ?_⟩
      · rw [count_apart_cons_of_alone hx, hcount]
      · intro hnext
        refine halone ?_
        intro hlt
        exact (apart_cons_of_alone hx _).mp (hnext (by simpa using hlt))
  | @joined x t y' z xs ys h htouch hstart hstop ih =>
    obtain ⟨hxt, hxs⟩ := List.pairwise_cons.mp hxs
    cases k with
    | zero =>
      obtain rfl : z = y := by simpa using hy
      refine ⟨0, by simp [Apart], by simp, x, rfl, hstart, ?_, fun hnext => ?_⟩
      -- the run of `x` stops where that of `t` does, behind the start of `t`
      · obtain ⟨u, rest, heq, hu⟩ := h.exists_head
        obtain ⟨rfl, rfl⟩ := List.cons.inj heq
        rw [hstop]
        exact le_trans (hxt _ (by simp)) (hu ▸ y'.start_le_stop)
      · exact absurd (hnext (by simp)) (by simpa [Apart] using htouch)
    | succ k =>
      have hy' : (y' :: ys)[k + 1]? = some y := by simpa using hy
      obtain ⟨i, hi, hcount, u, hu, hustart, hustop, halone⟩ := ih hxs hy'
      -- the run that `t` started begins with `x` now, so `t` no longer stays apart
      cases i with
      | zero => simp at hcount
      | succ i =>
        refine ⟨i + 2, (apart_cons_cons x t xs i).mpr hi, ?_, u, by simpa using hu, hustart, hustop,
          ?_⟩
        · rw [count_apart_cons_of_joined htouch, hcount]
        · intro hnext
          refine halone ?_
          intro hlt
          exact (apart_cons_cons x t xs (i + 1)).mp (hnext (Nat.succ_lt_succ hlt))

/-- There are as many runs as selections that stay apart. -/
theorem length_eq (h : Joins xs ys) : ys.length = Nat.count (Apart xs) xs.length := by
  induction h with
  | nil => simp
  | alone x h hx ih => rw [List.length_cons, List.length_cons, count_apart_cons_of_alone hx, ih]
  | joined x h htouch _ _ ih =>
    rw [List.length_cons] at ih
    rw [List.length_cons, ih, List.length_cons, List.length_cons, List.length_cons,
      count_apart_cons_of_joined htouch]

end Joins

end ModalEdit
