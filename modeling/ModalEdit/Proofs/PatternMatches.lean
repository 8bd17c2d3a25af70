import Mathlib.Data.Finset.Card
import ModalEdit.Pattern.Matching
import ModalEdit.Proofs.RegexMeaning

/-!
# What a pattern matches

`item.Spans text i k` says what it is for an item to match from `i` to `k`; what it is for a pattern
then follows from how it is put together. The search finds just that (`Tree.mem_ends_iff`,
`Tree.isMatch_iff`). Which match it prefers is left aside here.

The search goes depth first through the rounds of a repetition and starts no round twice at the same
position. That it misses nothing rests on one invariant (`Visits.Settles`): where a round was
started, its ends have been followed, unless that start is still being explored.
-/

namespace ModalEdit.Pattern

open Regex (Rounds)

/-! ## Matches -/

/-- **`item.Spans text i k`** — the item matches the text from `i` to `k`. -/
def Item.Spans : Item → List Char → Nat → Nat → Prop
  | .one set _, text, i, k => ∃ c, text[i]? = some c ∧ set.mem c = true ∧ k = i + 1
  | .assertion a, text, i, k =>
    i ≤ text.length ∧ a.holds (if i = 0 then none else text[i - 1]?) text[i]? = true ∧ k = i

theorem Item.Spans.le_length {item : Item} {text : List Char} {i k : Nat}
    (h : item.Spans text i k) : k ≤ text.length := by
  cases item with
  | one set depth =>
    obtain ⟨c, hc, -, rfl⟩ := h
    obtain ⟨hlt, -⟩ := List.getElem?_eq_some_iff.mp hc
    exact hlt
  | assertion a =>
    obtain ⟨hi, -, rfl⟩ := h
    exact hi

namespace Tree

/-- **`tree.Matches text i k`** — the pattern matches the text from `i` to `k`. -/
abbrev Matches (tree : Tree) (text : List Char) : Nat → Nat → Prop :=
  Regex.Tree.Matches Item.Spans text tree

theorem Matches.le_length {text : List Char} {tree : Tree} {i k : Nat}
    (h : tree.Matches text i k) (hi : i ≤ text.length) : k ≤ text.length := by
  induction tree generalizing i k with
  | empty | setting =>
    obtain rfl : k = i := h
    exact hi
  | item a => exact Item.Spans.le_length h
  | seq a b iha ihb =>
    obtain ⟨j, ha, hb⟩ := h
    exact ihb hb (iha ha hi)
  | alt a b iha ihb =>
    rcases h with ha | hb
    · exact iha ha hi
    · exact ihb hb hi
  | repetition op a ih =>
    obtain ⟨n, -, -, hrounds⟩ := h
    exact hrounds.keeps (P := (· ≤ text.length)) (fun _ _ hi hstep => ih hstep hi) hi
  | group kind a ih => exact ih h hi

end Tree

/-! ## Exploring -/

namespace Visits

variable {u v w : Visits} {p q r : Nat} {step : Nat → List Nat} {greedy : Bool}

@[simp] theorem seen_emit : (v.emit p).seen = v.seen := by
  unfold emit
  split <;> rfl

@[simp] theorem mem_found_emit : q ∈ (v.emit p).found ↔ q = p ∨ q ∈ v.found := by
  unfold emit
  split
  next h =>
    have hp : p ∈ v.found := by simpa using h
    constructor
    · exact .inr
    · rintro (rfl | hq)
      · exact hp
      · exact hq
  next => exact List.mem_cons

@[simp] theorem mem_seen_mark {x : Nat × Nat} :
    x ∈ (v.mark r p).seen ↔ x = (r, p) ∨ x ∈ v.seen := List.mem_cons

@[simp] theorem found_mark : (v.mark r p).found = v.found := rfl

theorem isSeen_iff : v.isSeen r p = true ↔ (r, p) ∈ v.seen := by simp [isSeen]

@[simp] theorem mem_ends : q ∈ v.ends ↔ q ∈ v.found := List.mem_reverse

/-- **`v.Grows w`** — nothing that was seen or found is forgotten. -/
structure Grows (v w : Visits) : Prop where
  seen : ∀ x ∈ v.seen, x ∈ w.seen
  found : ∀ q ∈ v.found, q ∈ w.found

namespace Grows

theorem refl (v : Visits) : v.Grows v := ⟨fun _ => id, fun _ => id⟩

theorem trans (h : u.Grows v) (h' : v.Grows w) : u.Grows w :=
  ⟨fun x hx => h'.seen x (h.seen x hx), fun q hq => h'.found q (h.found q hq)⟩

theorem emit (v : Visits) (p : Nat) : v.Grows (v.emit p) :=
  ⟨by simp, fun q hq => by simp [hq]⟩

theorem mark (v : Visits) (r p : Nat) : v.Grows (v.mark r p) :=
  ⟨fun x hx => by simp [hx], fun _ => id⟩

end Grows

/-- **`v.Settles Done w`** — from `v` to `w`, every start that was marked has been done with. -/
structure Settles (Done : Visits → Nat → Nat → Prop) (v w : Visits) : Prop where
  grows : v.Grows w
  done : ∀ r p, (r, p) ∈ w.seen → (r, p) ∈ v.seen ∨ Done w r p

namespace Settles

variable {Done : Visits → Nat → Nat → Prop}

theorem refl (v : Visits) : v.Settles Done v := ⟨.refl v, fun _ _ => .inl⟩

theorem emit (v : Visits) (p : Nat) : v.Settles Done (v.emit p) := by
  refine ⟨.emit v p, fun r q hseen => .inl ?_⟩
  rwa [seen_emit] at hseen

theorem trans (hmono : ∀ v w r p, v.Grows w → Done v r p → Done w r p)
    (h : u.Settles Done v) (h' : v.Settles Done w) : u.Settles Done w := by
  refine ⟨h.grows.trans h'.grows, fun r p hseen => ?_⟩
  rcases h'.done r p hseen with hbefore | hdone
  · exact (h.done r p hbefore).imp_right (hmono v w r p h'.grows)
  · exact .inr hdone

/-- A start is settled when the exploration that began with it has done with it. -/
theorem of_mark (h : (v.mark r p).Settles Done w) (hdone : Done w r p) : v.Settles Done w := by
  refine ⟨(Grows.mark v r p).trans h.grows, fun s q hseen => ?_⟩
  rcases h.done s q hseen with hbefore | hlater
  · rcases mem_seen_mark.mp hbefore with heq | hbefore
    · obtain ⟨rfl, rfl⟩ := Prod.mk.inj heq
      exact .inr hdone
    · exact .inl hbefore
  · exact .inr hlater

/-- Many explorations, one after the other; what each of them achieves is kept by those after it. -/
theorem foldl (hmono : ∀ v w r p, v.Grows w → Done v r p → Done w r p) {G : Visits → Nat → Prop}
    (hgoal : ∀ v w q, v.Grows w → G v q → G w q) {f : Visits → Nat → Visits} {l : List Nat}
    (h : ∀ w, v.Grows w → ∀ q ∈ l, w.Settles Done (f w q) ∧ G (f w q) q) :
    v.Settles Done (l.foldl f v) ∧ ∀ q ∈ l, G (l.foldl f v) q := by
  induction l generalizing v with
  | nil => exact ⟨.refl v, by simp⟩
  | cons first l ih =>
    obtain ⟨hfirst, hreached⟩ := h v (.refl v) first List.mem_cons_self
    obtain ⟨hrest, hothers⟩ := ih fun w hgrows q hq =>
      h w (hfirst.grows.trans hgrows) q (List.mem_cons_of_mem _ hq)
    refine ⟨hfirst.trans hmono hrest, List.forall_mem_cons.mpr ⟨?_, hothers⟩⟩
    exact hgoal _ _ first hrest.grows hreached

end Settles

/-- What the members of a list bring in. -/
theorem foldl_found {P : Nat → Prop} {f : Visits → Nat → Visits} {l : List Nat}
    (h : ∀ w, (∀ q ∈ w.found, P q) → ∀ p ∈ l, ∀ q ∈ (f w p).found, P q)
    (hv : ∀ q ∈ v.found, P q) : ∀ q ∈ (l.foldl f v).found, P q :=
  List.foldlRecOn (motive := fun w => ∀ q ∈ w.found, P q) l f hv h

/-! ## At most so many rounds -/

/-- With so many rounds allowed, `p` is as good as explored. -/
def Covers (v : Visits) : Nat → Nat → Prop
  | 0, p => p ∈ v.found
  | rounds + 1, p => (rounds, p) ∈ v.seen

/-- A start with a round before it is done with: it has been found, and so has what follows. -/
def DoneWithin (step : Nat → List Nat) (v : Visits) (rounds p : Nat) : Prop :=
  p ∈ v.found ∧ ∀ q ∈ step p, v.Covers rounds q

theorem Grows.covers (h : v.Grows w) (hv : v.Covers r p) : w.Covers r p := by
  cases r with
  | zero => exact h.found p hv
  | succ r => exact h.seen _ hv

theorem doneWithin_mono (v w : Visits) (r p : Nat) (h : v.Grows w) (hv : DoneWithin step v r p) :
    DoneWithin step w r p :=
  ⟨h.found p hv.1, fun q hq => h.covers (hv.2 q hq)⟩

/-- By induction on the rounds: the ends of the first one are explored with one round less. -/
theorem atMost_settles (rounds p : Nat) (v : Visits) :
    v.Settles (DoneWithin step) (atMost step greedy rounds p v) ∧
      (atMost step greedy rounds p v).Covers rounds p := by
  induction rounds generalizing p v with
  | zero => exact ⟨.emit v p, by simp [atMost, Covers]⟩
  | succ rounds ih =>
    unfold atMost
    split
    next hseen => exact ⟨.refl v, isSeen_iff.mp hseen⟩
    next =>
      dsimp only
      generalize hbegun : (if greedy = true then v else v.emit p) = begun
      have hbefore : v.Settles (DoneWithin step) begun := by
        subst hbegun
        split
        · exact .refl v
        · exact .emit v p
      have hexplored : ∀ w, (begun.mark rounds p).Grows w → ∀ q ∈ step p,
          w.Settles (DoneWithin step) (atMost step greedy rounds q w) ∧
            (atMost step greedy rounds q w).Covers rounds q := fun w _ q _ => ih q w
      obtain ⟨hfold, hfollowed⟩ := Settles.foldl doneWithin_mono
        (G := fun w q => w.Covers rounds q) (fun _ _ _ hgrows => hgrows.covers) hexplored
      generalize (step p).foldl (fun v next => atMost step greedy rounds next v)
        (begun.mark rounds p) = explored at hfold hfollowed
      have hemitted := hfold.trans doneWithin_mono (.emit explored p)
      have hdone : DoneWithin step (explored.emit p) rounds p :=
        ⟨by simp, fun q hq => (Grows.emit explored p).covers (hfollowed q hq)⟩
      refine ⟨hbefore.trans doneWithin_mono (hemitted.of_mark hdone), ?_⟩
      exact hemitted.grows.seen _ (by simp)

/-- Where everything is done with, all that can be reached has been found. -/
theorem mem_found_of_covers (hdone : ∀ r p, (r, p) ∈ v.seen → DoneWithin step v r p) {n : Nat}
    (h : Rounds (fun i j => j ∈ step i) n p q) (hn : n ≤ r) (hp : v.Covers r p) :
    q ∈ v.found := by
  induction h generalizing r with
  | none p =>
    cases r with
    | zero => exact hp
    | succ r => exact (hdone r p hp).1
  | @more n p next q hstep _ ih =>
    cases r with
    | zero => exact absurd hn (by omega)
    | succ r => exact ih (Nat.le_of_succ_le_succ hn) ((hdone r p hp).2 next hstep)

theorem atMost_sound {P : Nat → Prop} {rounds : Nat}
    (h : ∀ n ≤ rounds, ∀ q, Rounds (fun i j => j ∈ step i) n p q → P q)
    (hv : ∀ q ∈ v.found, P q) : ∀ q ∈ (atMost step greedy rounds p v).found, P q := by
  induction rounds generalizing p v with
  | zero =>
    intro q hq
    rcases mem_found_emit.mp hq with rfl | hq
    · exact h 0 le_rfl q (.none q)
    · exact hv q hq
  | succ rounds ih =>
    have hp : P p := h 0 (Nat.zero_le _) p (.none p)
    unfold atMost
    split
    next => exact hv
    next =>
      dsimp only
      intro q hq
      rcases mem_found_emit.mp hq with rfl | hq
      · exact hp
      refine foldl_found (P := P) ?_ ?_ q hq
      · intro w hw next hnext
        exact ih (fun n hn q hrounds => h (n + 1) (Nat.succ_le_succ hn) q (.more hnext hrounds)) hw
      · intro q hq
        rw [found_mark] at hq
        split at hq
        · exact hv q hq
        · rcases mem_found_emit.mp hq with rfl | hq
          · exact hp
          · exact hv q hq

/-- **At most so many rounds** — what is found from a list of starts. -/
theorem mem_found_atMost {starts : List Nat} {rounds : Nat} :
    q ∈ (starts.foldl (fun v p => atMost step greedy rounds p v) start).found ↔
      ∃ p ∈ starts, ∃ n ≤ rounds, Rounds (fun i j => j ∈ step i) n p q := by
  constructor
  · refine foldl_found (P := fun q => ∃ p ∈ starts, ∃ n ≤ rounds, Rounds _ n p q) ?_ ?_ q
    · intro w hw p hp
      exact atMost_sound (fun n hn q hrounds => ⟨p, hp, n, hn, hrounds⟩) hw
    · exact fun q hq => absurd hq List.not_mem_nil
  · rintro ⟨p, hp, n, hn, hrounds⟩
    have hexplored : ∀ w, start.Grows w → ∀ p ∈ starts,
        w.Settles (DoneWithin step) (atMost step greedy rounds p w) ∧
          (atMost step greedy rounds p w).Covers rounds p := fun w _ p _ => atMost_settles rounds p w
    obtain ⟨hsettles, hcovered⟩ := Settles.foldl doneWithin_mono
      (G := fun w p => w.Covers rounds p) (fun _ _ _ hgrows => hgrows.covers) hexplored
    refine mem_found_of_covers (fun r p hseen => ?_) hrounds hn (hcovered p hp)
    exact (hsettles.done r p hseen).resolve_left List.not_mem_nil

/-! ## At least one round -/

/-- A position that has been found and from which a round was started. -/
def Entered (v : Visits) (p : Nat) : Prop := p ∈ v.found ∧ (0, p) ∈ v.seen

/-- A start is done with: all ends of its round have been entered. -/
def DoneFrom (step : Nat → List Nat) (v : Visits) (_ p : Nat) : Prop := ∀ q ∈ step p, v.Entered q

theorem Grows.entered (h : v.Grows w) (hv : v.Entered p) : w.Entered p :=
  ⟨h.found p hv.1, h.seen _ hv.2⟩

theorem doneFrom_mono (v w : Visits) (r p : Nat) (h : v.Grows w) (hv : DoneFrom step v r p) :
    DoneFrom step w r p :=
  fun q hq => h.entered (hv q hq)

/-- The positions up to `size` from which no round was started. -/
def unseen (v : Visits) (size : Nat) : Finset Nat :=
  (Finset.range (size + 1)).filter fun p => (0, p) ∉ v.seen

theorem card_unseen_le (v : Visits) (size : Nat) : (v.unseen size).card ≤ size + 1 :=
  (Finset.card_filter_le _ _).trans_eq (Finset.card_range _)

theorem Grows.unseen_subset (h : v.Grows w) (size : Nat) : w.unseen size ⊆ v.unseen size := by
  intro p hp
  obtain ⟨hrange, hnew⟩ := Finset.mem_filter.mp hp
  exact Finset.mem_filter.mpr ⟨hrange, fun hseen => hnew (h.seen _ hseen)⟩

theorem card_unseen_mark {size : Nat} (hp : p ≤ size) (hnew : (0, p) ∉ v.seen) :
    ((v.mark 0 p).unseen size).card < (v.unseen size).card := by
  refine Finset.card_lt_card ((Finset.ssubset_iff_of_subset ?_).mpr ⟨p, ?_, ?_⟩)
  · exact (Grows.mark v 0 p).unseen_subset size
  · exact Finset.mem_filter.mpr ⟨Finset.mem_range.mpr (Nat.lt_succ_of_le hp), hnew⟩
  · simp [unseen]

section Bounded

variable {size : Nat} (hstep : ∀ p ≤ size, ∀ q ∈ step p, q ≤ size)

include hstep

/-- By induction on the fuel, of which there is more than there are positions to start from. -/
theorem atLeastOnce_settles {fuel : Nat} (hp : p ≤ size) (hfuel : (v.unseen size).card < fuel) :
    v.Settles (DoneFrom step) (atLeastOnce step greedy fuel p v) ∧
      (0, p) ∈ (atLeastOnce step greedy fuel p v).seen := by
  induction fuel generalizing p v with
  | zero => exact absurd hfuel (Nat.not_lt_zero _)
  | succ fuel ih =>
    unfold atLeastOnce
    split
    next hseen => exact ⟨.refl v, isSeen_iff.mp hseen⟩
    next hnew =>
      have hcard := card_unseen_mark hp (fun hseen => hnew (isSeen_iff.mpr hseen))
      have hexplored : ∀ w, (v.mark 0 p).Grows w → ∀ q ∈ step p,
          let next := if greedy then (atLeastOnce step greedy fuel q w).emit q
            else atLeastOnce step greedy fuel q (w.emit q)
          w.Settles (DoneFrom step) next ∧ next.Entered q := by
        intro w hgrows q hq
        have hle := Finset.card_le_card (hgrows.unseen_subset size)
        dsimp only
        split
        · obtain ⟨hsettles, hseen⟩ := ih (v := w) (hstep p hp q hq) (by omega)
          refine ⟨hsettles.trans doneFrom_mono (.emit _ q), ?_⟩
          exact ⟨by simp, by simpa using hseen⟩
        · have hle' := Finset.card_le_card ((Grows.emit w q).unseen_subset size)
          obtain ⟨hsettles, hseen⟩ := ih (v := w.emit q) (hstep p hp q hq) (by omega)
          refine ⟨(Settles.emit w q).trans doneFrom_mono hsettles, ?_⟩
          exact ⟨hsettles.grows.found q (by simp), hseen⟩
      obtain ⟨hfold, hentered⟩ := Settles.foldl doneFrom_mono (G := Entered)
        (fun _ _ _ hgrows => hgrows.entered) hexplored
      exact ⟨hfold.of_mark hentered, hfold.grows.seen _ (by simp)⟩

omit hstep in
theorem atLeastOnce_sound {P : Nat → Prop} {fuel : Nat}
    (h : ∀ n q, Rounds (fun i j => j ∈ step i) (n + 1) p q → P q)
    (hv : ∀ q ∈ v.found, P q) : ∀ q ∈ (atLeastOnce step greedy fuel p v).found, P q := by
  induction fuel generalizing p v with
  | zero => exact hv
  | succ fuel ih =>
    unfold atLeastOnce
    split
    next => exact hv
    next =>
      refine foldl_found ?_ hv
      intro w hw next hnext
      have hone : P next := h 0 next (.more hnext (.none next))
      have hmore : ∀ n q, Rounds (fun i j => j ∈ step i) (n + 1) next q → P q :=
        fun n q hrounds => h (n + 1) q (.more hnext hrounds)
      split
      · intro q hq
        rcases mem_found_emit.mp hq with rfl | hq
        · exact hone
        · exact ih hmore hw q hq
      · refine ih hmore fun q hq => ?_
        rcases mem_found_emit.mp hq with rfl | hq
        · exact hone
        · exact hw q hq

omit hstep in
/-- Where everything is done with, all that can be reached has been found. -/
theorem mem_found_of_seen (hdone : ∀ p, (0, p) ∈ v.seen → DoneFrom step v 0 p) {n : Nat}
    (h : Rounds (fun i j => j ∈ step i) (n + 1) p q) (hp : (0, p) ∈ v.seen) : q ∈ v.found := by
  induction n generalizing p with
  | zero =>
    obtain ⟨next, hnext, hrest⟩ := Rounds.succ_iff.mp h
    obtain rfl := Rounds.zero_iff.mp hrest
    exact (hdone p hp q hnext).1
  | succ n ih =>
    obtain ⟨next, hnext, hrest⟩ := Rounds.succ_iff.mp h
    exact ih hrest (hdone p hp next hnext).2

/-- **At least one round** — what is found from a list of starts. -/
theorem mem_found_atLeastOnce {starts : List Nat} (hstarts : ∀ p ∈ starts, p ≤ size)
    (hfresh : v.seen = []) :
    q ∈ (starts.foldl (fun v p => atLeastOnce step greedy (size + 2) p v) v).found ↔
      q ∈ v.found ∨ ∃ p ∈ starts, ∃ n, Rounds (fun i j => j ∈ step i) (n + 1) p q := by
  have hexplored : ∀ w, v.Grows w → ∀ p ∈ starts,
      w.Settles (DoneFrom step) (atLeastOnce step greedy (size + 2) p w) ∧
        (0, p) ∈ (atLeastOnce step greedy (size + 2) p w).seen := fun w _ p hp =>
    atLeastOnce_settles hstep (hstarts p hp) (Nat.lt_succ_of_le (w.card_unseen_le size))
  obtain ⟨hsettles, hseen⟩ := Settles.foldl doneFrom_mono
    (G := fun w p => (0, p) ∈ w.seen) (fun _ _ _ hgrows => hgrows.seen _) hexplored
  constructor
  · refine foldl_found (P := fun q => q ∈ v.found ∨ ∃ p ∈ starts, ∃ n, Rounds _ (n + 1) p q)
      ?_ (fun q => .inl) q
    intro w hw p hp
    exact atLeastOnce_sound (fun n q hrounds => .inr ⟨p, hp, n, hrounds⟩) hw
  · rintro (hq | ⟨p, hp, n, hrounds⟩)
    · exact hsettles.grows.found q hq
    · refine mem_found_of_seen (fun p hmem => ?_) hrounds (hseen p hp)
      exact (hsettles.done 0 p hmem).resolve_left (by simp [hfresh])

end Bounded

end Visits

/-! ## Repetitions -/

section Repetitions

variable {step : Nat → List Nat} {size : Nat}

theorem mem_exactly {rounds k : Nat} {positions : List Nat} :
    k ∈ exactly step rounds positions ↔
      ∃ i ∈ positions, Rounds (fun i j => j ∈ step i) rounds i k := by
  induction rounds generalizing positions with
  | zero => simp [exactly, Rounds.zero_iff]
  | succ rounds ih =>
    rw [exactly, ih]
    simp only [List.mem_eraseDups, List.mem_flatMap, Rounds.succ_iff]
    constructor
    · rintro ⟨j, ⟨i, hi, hj⟩, hrest⟩
      exact ⟨i, hi, j, hj, hrest⟩
    · rintro ⟨i, hi, j, hj, hrest⟩
      exact ⟨j, ⟨i, hi, hj⟩, hrest⟩

/-- **Repetitions** — the ends of a repetition are those of as many rounds as it allows. -/
theorem mem_repetitionEnds (hstep : ∀ p ≤ size, ∀ q ∈ step p, q ≤ size) {low : Nat}
    {high : Option Nat} (hordered : ∀ m ∈ high, low ≤ m) {greedy : Bool} {i k : Nat}
    (hi : i ≤ size) :
    k ∈ repetitionEnds step low high greedy size i ↔
      ∃ n, low ≤ n ∧ (∀ m ∈ high, n ≤ m) ∧ Rounds (fun i j => j ∈ step i) n i k := by
  have hwithin : ∀ n j, Rounds (fun i j => j ∈ step i) n i j → j ≤ size := fun n j hrounds =>
    hrounds.keeps (P := (· ≤ size)) (fun p q hp hq => hstep p hp q hq) hi
  match low, high, hordered with
  | low, some high, hordered =>
    have hle : low ≤ high := hordered high rfl
    rw [repetitionEnds, Visits.mem_ends, Visits.mem_found_atMost]
    simp only [mem_exactly, List.mem_singleton, exists_eq_left, Option.mem_def,
      Option.some.injEq, forall_eq']
    constructor
    · rintro ⟨j, hfirst, more, hmore, hrest⟩
      exact ⟨low + more, by omega, by omega, Rounds.add_iff.mpr ⟨j, hfirst, hrest⟩⟩
    · rintro ⟨n, hlow, hhigh, hrounds⟩
      obtain ⟨more, rfl⟩ := Nat.exists_eq_add_of_le hlow
      obtain ⟨j, hfirst, hrest⟩ := Rounds.add_iff.mp hrounds
      exact ⟨j, hfirst, more, by omega, hrest⟩
  | 0, none, _ =>
    have hany : k ∈ repetitionEnds step 0 none greedy size i ↔
        k = i ∨ ∃ n, Rounds (fun i j => j ∈ step i) (n + 1) i k := by
      have hstarts : ∀ p ∈ [i], p ≤ size := by simpa using hi
      have hsingle : ∀ v : Visits, v.seen = [] →
          (k ∈ ([i].foldl (fun v p => Visits.atLeastOnce step greedy (size + 2) p v) v).found ↔ _) :=
        fun v hfresh => Visits.mem_found_atLeastOnce hstep hstarts hfresh
      simp only [List.foldl_cons, List.foldl_nil, List.mem_singleton, exists_eq_left] at hsingle
      rw [repetitionEnds]
      split
      · rw [Visits.mem_ends, Visits.mem_found_emit, hsingle .start rfl]
        simp [Visits.start]
      · rw [Visits.mem_ends, hsingle _ (by simp [Visits.start]), Visits.mem_found_emit]
        simp [Visits.start]
    rw [hany]
    simp only [Nat.zero_le, Option.not_mem_none, false_implies, implies_true, true_and]
    constructor
    · rintro (rfl | ⟨n, hrounds⟩)
      · exact ⟨0, .none k⟩
      · exact ⟨n + 1, hrounds⟩
    · rintro ⟨n, hrounds⟩
      cases n with
      | zero => exact .inl (Rounds.zero_iff.mp hrounds)
      | succ n => exact .inr ⟨n, hrounds⟩
  | low + 1, none, _ =>
    have hstarts : ∀ p ∈ exactly step low [i], p ≤ size := by
      intro p hp
      obtain ⟨i', hi', hrounds⟩ := mem_exactly.mp hp
      obtain rfl := List.mem_singleton.mp hi'
      exact hwithin low p hrounds
    rw [repetitionEnds, Visits.mem_ends, Visits.mem_found_atLeastOnce hstep hstarts rfl]
    simp only [Visits.start, List.not_mem_nil, false_or, mem_exactly, List.mem_singleton,
      exists_eq_left, Option.not_mem_none, false_implies, implies_true, true_and]
    constructor
    · rintro ⟨j, hfirst, more, hrest⟩
      exact ⟨low + (more + 1), by omega, Rounds.add_iff.mpr ⟨j, hfirst, hrest⟩⟩
    · rintro ⟨n, hlow, hrounds⟩
      obtain ⟨more, rfl⟩ := Nat.exists_eq_add_of_le hlow
      rw [Nat.succ_add_eq_add_succ] at hrounds
      obtain ⟨j, hfirst, hrest⟩ := Rounds.add_iff.mp hrounds
      exact ⟨j, hfirst, more, hrest⟩

end Repetitions

/-! ## The search -/

namespace Tree

theorem mem_itemEnds_iff {text : List Char} {item : Item} {i k : Nat} (hi : i ≤ text.length) :
    k ∈ item.ends text.toArray i ↔ item.Spans text i k := by
  cases item with
  | one set depth =>
    simp only [Item.ends, Item.Spans, List.getElem?_toArray]
    cases text[i]? with
    | none => simp
    | some c => by_cases hc : set.mem c <;> simp [hc]
  | assertion a =>
    simp only [Item.ends, Item.Spans, List.getElem?_toArray]
    by_cases h : a.holds (if i = 0 then none else text[i - 1]?) text[i]? = true
    · rw [if_pos h]
      simp [h, hi]
    · rw [if_neg h]
      simp [h]

/-- **The search is exact** — its ends are those of the matches. -/
theorem mem_ends_iff {text : List Char} {tree : Tree} {i k : Nat} (hi : i ≤ text.length) :
    k ∈ tree.ends text.toArray i ↔ tree.Matches text i k := by
  induction tree generalizing i k with
  | empty | setting => simp [ends, Matches, Regex.Tree.Matches]
  | item a => exact mem_itemEnds_iff hi
  | seq a b iha ihb =>
    simp only [ends, Matches, Regex.Tree.Matches, List.mem_eraseDups, List.mem_flatMap]
    refine exists_congr fun j => ?_
    rw [iha hi]
    exact and_congr_right fun ha => ihb (Matches.le_length ha hi)
  | alt a b iha ihb =>
    simp only [ends, Matches, Regex.Tree.Matches, List.mem_eraseDups, List.mem_append]
    rw [iha hi, ihb hi]
  | repetition op a ih =>
    have hstep : ∀ p ≤ text.toArray.size, ∀ q ∈ ends text.toArray a p, q ≤ text.toArray.size := by
      intro p hp q hq
      exact Matches.le_length ((ih hp).mp hq) hp
    rw [ends, mem_repetitionEnds hstep op.ordered hi, Matches, Regex.Tree.Matches]
    refine exists_congr fun n => and_congr_right fun _ => and_congr_right fun _ => ?_
    exact Rounds.congr_of (P := (· ≤ text.length)) (fun p q hp hq => hstep p hp q hq)
      (fun p q hp => ih hp) hi
  | group kind a ih => exact ih hi

theorem isSome_findFrom_iff {tree : Tree} {text : Array Char} {start count : Nat} :
    (tree.findFrom text start count).isSome = true ↔
      ∃ i, start ≤ i ∧ i < start + count ∧ tree.ends text i ≠ [] := by
  induction count generalizing start with
  | zero =>
    simp only [findFrom, Option.isSome_none, Bool.false_eq_true, false_iff]
    rintro ⟨i, hlow, hhigh, -⟩
    omega
  | succ count ih =>
    unfold findFrom
    split
    next stop rest hends =>
      simp only [Option.isSome_some, true_iff]
      exact ⟨start, le_rfl, by omega, by simp [hends]⟩
    next hends =>
      rw [ih]
      constructor
      · rintro ⟨i, hlow, hhigh, hne⟩
        exact ⟨i, by omega, by omega, hne⟩
      · rintro ⟨i, hlow, hhigh, hne⟩
        have hlt : start ≠ i := by
          rintro rfl
          exact hne hends
        exact ⟨i, by omega, by omega, hne⟩

/-- A pattern matches somewhere in a text. -/
theorem isMatch_iff {tree : Tree} {text : List Char} :
    tree.isMatch text = true ↔ ∃ i k, i ≤ text.length ∧ tree.Matches text i k := by
  rw [isMatch, find?, isSome_findFrom_iff]
  refine exists_congr fun i => ?_
  constructor
  · rintro ⟨-, hlt, hne⟩
    have hi : i ≤ text.length := by simpa using Nat.lt_succ_iff.mp (by simpa using hlt)
    obtain ⟨k, hk⟩ := List.exists_mem_of_ne_nil _ hne
    exact ⟨k, hi, (mem_ends_iff (by simpa using hi)).mp hk⟩
  · rintro ⟨k, hi, hmatches⟩
    refine ⟨Nat.zero_le i, by simpa using Nat.lt_succ_of_le hi, List.ne_nil_of_mem (a := k) ?_⟩
    exact (mem_ends_iff (by simpa using hi)).mpr hmatches

end Tree

end ModalEdit.Pattern
