import Mathlib.Data.Nat.Count

/-!
# Visiting by index in a shrinking list

A list loses members while it is walked by index: at step `k` the walker visits the `k`-th of those
that still stand. `Visits` describes such a walk. It never turns back (`Visits.strictMono`), but it
can jump: when members that were visited already fall, the ones to come move up, and the index moves
past one of them. `Visits.complete_iff` says exactly when that does not happen.
-/

namespace ModalEdit

/-- **`Visits stands visit steps size`** — of `size` members, `stands k` are those that stand after
`k` steps, and `visit k` is the one that step `k` visits. -/
structure Visits (stands : Nat → Nat → Prop) [∀ k, DecidablePred (stands k)] (visit : Nat → Nat)
    (steps size : Nat) : Prop where
  lt_size : ∀ k i, stands k i → i < size
  /-- Who has fallen stays fallen. -/
  thins : ∀ k i, stands (k + 1) i → stands k i
  visit_stands : ∀ k < steps, stands k (visit k)
  /-- Step `k` visits the `k`-th of those that stand. -/
  count_visit : ∀ k < steps, Nat.count (stands k) (visit k) = k
  /-- The walk ends when there is no member with the next index. -/
  count_size : Nat.count (stands steps) size ≤ steps

/-- The number of steps that visit one before `i`. -/
def turn (visit : Nat → Nat) (steps i : Nat) : Nat := Nat.count (fun k => visit k < i) steps

/-- **`Complete`** — nobody is jumped over: who stands when its turn comes is visited. -/
def Complete (stands : Nat → Nat → Prop) (visit : Nat → Nat) (steps size : Nat) : Prop :=
  ∀ i < size, stands (turn visit steps i) i → ∃ k < steps, visit k = i

/-- **`Steady`** — as long as somebody further on stands, so do all who were visited. -/
def Steady (stands : Nat → Nat → Prop) (visit : Nat → Nat) (steps : Nat) : Prop :=
  ∀ k < steps, ∀ i, stands (k + 1) i → visit k < i → ∀ j ≤ k, stands (k + 1) (visit j)

/-- A predicate that holds up to some number holds up to how often it does. -/
theorem lt_count_iff {q : Nat → Prop} [DecidablePred q] {k m : Nat}
    (h : ∀ j k, j ≤ k → k < m → q k → q j) (hk : k < m) : q k ↔ k < Nat.count q m := by
  constructor
  · intro hq
    have hall : Nat.count q (k + 1) = k + 1 :=
      Nat.count_iff_forall.mpr fun j hj => h j k (by omega) hk hq
    have := Nat.count_monotone q (show k + 1 ≤ m by omega)
    omega
  · intro hlt
    by_contra hq
    obtain ⟨r, rfl⟩ := Nat.exists_eq_add_of_lt hk
    have hnone : Nat.count (fun j => q (k + j)) (r + 1) = 0 :=
      Nat.count_iff_forall_not.mpr fun j hj hqj => hq (h k (k + j) (by omega) (by omega) hqj)
    have : Nat.count q k ≤ k := Nat.count_le q
    rw [show k + r + 1 = k + (r + 1) by omega, Nat.count_add, hnone] at hlt
    omega

namespace Visits

variable {stands : Nat → Nat → Prop} [∀ k, DecidablePred (stands k)] {visit : Nat → Nat}
  {steps size : Nat}

theorem stands_of_le (h : Visits stands visit steps size) {j k i : Nat} (hjk : j ≤ k)
    (hk : stands k i) : stands j i := by
  induction hjk with
  | refl => exact hk
  | step _ ih => exact ih (h.thins _ _ hk)

/-- The walk never turns back. -/
theorem lt_succ (h : Visits stands visit steps size) {k : Nat} (hk : k + 1 < steps) :
    visit k < visit (k + 1) := by
  by_contra hle
  have hcount := h.count_visit (k + 1) hk
  have hmono : Nat.count (stands (k + 1)) (visit (k + 1)) ≤ Nat.count (stands k) (visit (k + 1)) :=
    Nat.count_mono_left fun i _ => h.thins k i
  have hle := Nat.count_monotone (stands k) (Nat.not_lt.mp hle)
  have := h.count_visit k (by omega)
  omega

theorem strictMono (h : Visits stands visit steps size) {j k : Nat} (hjk : j < k)
    (hk : k < steps) : visit j < visit k := by
  induction hjk with
  | refl => exact h.lt_succ hk
  | step _ ih => exact lt_trans (ih (by omega)) (h.lt_succ hk)

theorem monotone (h : Visits stands visit steps size) {j k : Nat} (hjk : j ≤ k)
    (hk : k < steps) : visit j ≤ visit k := by
  rcases Nat.eq_or_lt_of_le hjk with rfl | hlt
  · exact Nat.le_refl _
  · exact (h.strictMono hlt hk).le

/-- Exactly the steps before its turn visit one before `i`. -/
theorem lt_turn_iff (h : Visits stands visit steps size) {k : Nat} (hk : k < steps) (i : Nat) :
    k < turn visit steps i ↔ visit k < i :=
  (lt_count_iff (fun _ _ hjk hk hlt => lt_of_le_of_lt (h.monotone hjk hk) hlt) hk).symm

/-- Those visited so far count among those before `i`. -/
theorem le_count (h : Visits stands visit steps size) {q : Nat → Prop} [DecidablePred q]
    {k i : Nat} (hk : k ≤ steps) (hq : ∀ j < k, q (visit j)) (hlt : ∀ j < k, visit j < i) :
    k ≤ Nat.count q i := by
  induction k generalizing i with
  | zero => exact Nat.zero_le _
  | succ k ih =>
    have hearlier := ih (i := visit k) (by omega) (fun j hj => hq j (by omega))
      fun j hj => h.strictMono hj (by omega)
    have hnext := Nat.count_succ_eq_succ_count_iff.mpr (hq k (by omega))
    have hmono := Nat.count_monotone q (hlt k (by omega))
    rw [Nat.succ_eq_add_one, hnext] at hmono
    omega

theorem complete_of_steady (h : Visits stands visit steps size)
    (hsteady : Steady stands visit steps) : Complete stands visit steps size := by
  intro i hi hstands
  generalize ht : turn visit steps i = t at hstands
  have hle : t ≤ steps := ht ▸ Nat.count_le _
  have hbefore : ∀ j < t, visit j < i := fun j hj => (h.lt_turn_iff (by omega) i).mp (ht ▸ hj)
  have hcount : t ≤ Nat.count (stands t) i := by
    cases t with
    | zero => exact Nat.zero_le _
    | succ k =>
      refine h.le_count hle (fun j hj => ?_) hbefore
      exact hsteady k (by omega) i hstands (hbefore k (by omega)) j (by omega)
  have hnext := Nat.count_succ_eq_succ_count_iff.mpr hstands
  -- the walk is not over yet, since there is a member with the next index
  have hlt : t < steps := by
    by_contra hge
    obtain rfl : t = steps := by omega
    have hsize := h.count_size
    have := Nat.count_monotone (stands t) (show i + 1 ≤ size by omega)
    omega
  refine ⟨t, hlt, ?_⟩
  -- step `t` visits nobody before `i`, and nobody behind it either
  have hge : i ≤ visit t := by
    refine Nat.not_lt.mp ?_
    intro hv
    have := (h.lt_turn_iff hlt i).mpr hv
    omega
  by_contra hne
  have hcountv := h.count_visit t hlt
  have := Nat.count_monotone (stands t) (show i + 1 ≤ visit t by omega)
  omega

/-- If everybody before `x` who stands is visited by then, counting those who stand is counting the
visits to them. -/
theorem count_eq_count_visits (h : Visits stands visit steps size) {q : Nat → Prop}
    [DecidablePred q] {t x : Nat} (ht : t ≤ steps) (hlt : ∀ j < t, visit j < x)
    (hall : ∀ a < x, q a → ∃ j < t, visit j = a) :
    Nat.count q x = Nat.count (fun j => q (visit j)) t := by
  rw [Nat.count_eq_card_filter_range, Nat.count_eq_card_filter_range]
  symm
  refine Finset.card_nbij visit ?_ ?_ ?_
  · intro j hj
    simp only [Finset.coe_filter, Finset.mem_range, Set.mem_ofPred_eq] at hj ⊢
    exact ⟨hlt j hj.1, hj.2⟩
  · intro j hj k hk hjk
    simp only [Finset.coe_filter, Finset.mem_range, Set.mem_ofPred_eq] at hj hk
    by_contra hne
    rcases Nat.lt_or_gt_of_ne hne with hlt' | hlt'
    · exact absurd (h.strictMono hlt' (by omega)) (by omega)
    · exact absurd (h.strictMono hlt' (by omega)) (by omega)
  · intro a ha
    simp only [Finset.coe_filter, Finset.mem_range, Set.mem_ofPred_eq] at ha
    obtain ⟨j, hj, rfl⟩ := hall a ha.1 ha.2
    exact ⟨j, by simpa using ⟨hj, ha.2⟩, rfl⟩

section NextStanding

variable {k first : Nat}

/-- It is the turn of the first one behind `visit k` that stands after step `k`. -/
theorem turn_first (h : Visits stands visit steps size) (hk : k < steps)
    (hbehind : visit k < first) (hleast : ∀ a < first, ¬ (stands (k + 1) a ∧ visit k < a)) :
    turn visit steps first = k + 1 := by
  have hgt := (h.lt_turn_iff hk first).mpr hbehind
  have hle : turn visit steps first ≤ steps := Nat.count_le _
  by_contra hne
  -- else the next step would visit one between `visit k` and the first one
  have hnext : k + 1 < steps := by omega
  have hv := (h.lt_turn_iff hnext first).mp (by omega)
  exact hleast _ hv ⟨h.visit_stands _ hnext, h.lt_succ hnext⟩

/-- If nobody is jumped over, the next step visits it. -/
theorem visit_first (h : Visits stands visit steps size)
    (hcomplete : Complete stands visit steps size) (hk : k < steps)
    (hfirst : stands (k + 1) first) (hbehind : visit k < first)
    (hleast : ∀ a < first, ¬ (stands (k + 1) a ∧ visit k < a)) :
    k + 1 < steps ∧ visit (k + 1) = first := by
  have hturn := h.turn_first hk hbehind hleast
  obtain ⟨m, hm, hvisit⟩ := hcomplete first (h.lt_size _ _ hfirst) (hturn ▸ hfirst)
  have hge : k + 1 ≤ m := by
    have hnot : ¬ m < turn visit steps first := by
      rw [h.lt_turn_iff hm, hvisit]
      exact lt_irrefl _
    omega
  have hmk : m = k + 1 := by
    by_contra hne
    have hnext := h.strictMono (show k + 1 < m by omega) hm
    have := (h.lt_turn_iff (show k + 1 < steps by omega) first).mpr (hvisit ▸ hnext)
    omega
  subst hmk
  exact ⟨hm, hvisit⟩

/-- If nobody is jumped over, whoever stands before it has been visited by then. -/
theorem visited_before_first (h : Visits stands visit steps size)
    (hcomplete : Complete stands visit steps size) (hk : k < steps)
    (hleast : ∀ a < first, ¬ (stands (k + 1) a ∧ visit k < a)) {a : Nat} (ha : a < first)
    (hstands : stands (k + 1) a) : ∃ b < k + 1, visit b = a := by
  have hak : a ≤ visit k := Nat.not_lt.mp fun hlt => hleast a ha ⟨hstands, hlt⟩
  have hta : turn visit steps a ≤ k :=
    Nat.not_lt.mp fun hlt => absurd ((h.lt_turn_iff hk a).mp hlt) (by omega)
  obtain ⟨b, hb, rfl⟩ := hcomplete a (h.lt_size _ _ hstands) (h.stands_of_le (by omega) hstands)
  refine ⟨b, ?_, rfl⟩
  by_contra hge
  exact absurd (h.strictMono (show k < b by omega) hb) (by omega)

end NextStanding

theorem steady_of_complete (h : Visits stands visit steps size)
    (hcomplete : Complete stands visit steps size) : Steady stands visit steps := by
  intro k hk i hi hlt j hj
  have hex : ∃ a, stands (k + 1) a ∧ visit k < a := ⟨i, hi, hlt⟩
  obtain ⟨first, ⟨hfirst, hbehind⟩, hleast⟩ : ∃ first, (stands (k + 1) first ∧ visit k < first) ∧
      ∀ a < first, ¬ (stands (k + 1) a ∧ visit k < a) :=
    ⟨Nat.find hex, Nat.find_spec hex, fun a ha => Nat.find_min hex ha⟩
  obtain ⟨hnext, hvisit⟩ := h.visit_first hcomplete hk hfirst hbehind hleast
  -- as many stand before the first one as were visited so far, and only such as were visited
  have hcount := h.count_visit (k + 1) hnext
  rw [hvisit, h.count_eq_count_visits (t := k + 1) (by omega)
    (fun a ha => lt_of_le_of_lt (h.monotone (by omega) hk) hbehind)
    (fun a => h.visited_before_first hcomplete hk hleast)] at hcount
  exact Nat.count_iff_forall.mp hcount j (by omega)

/-- **When nobody is jumped over** — a walk by index visits everybody who stands when its turn
comes, exactly if nobody falls who was visited while somebody further on stands. -/
theorem complete_iff (h : Visits stands visit steps size) :
    Complete stands visit steps size ↔ Steady stands visit steps :=
  ⟨h.steady_of_complete, h.complete_of_steady⟩

end Visits

end ModalEdit
