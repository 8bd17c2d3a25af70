import Mathlib
import ModalEdit.Proofs.IteratedPasses
import ModalEdit.Proofs.MovingCommands

/-!
# What running once per selection visits and misses

The passes of an act that runs once per selection visit the selections in text order, none twice.
They miss none exactly as long as no selection that was visited already is merged into one before it
while a later one still stays apart (`iteration_visits`): from then on the index of the next pass
points behind the selection that is next.

The bodies of the passes may do anything that leaves the tracker of the passes alone. Command lines
do: the tracker is new, so it is out of reach for whatever they run (`Settled.worksApart`).
-/

namespace ModalEdit.Scene

open Text

/-! ## Where the passes begin -/

/-- **`s.Sound`** — the document of the context exists and has issued the ids of its listeners, and
the selections of the context are well formed and in the text. -/
structure Sound (s : Scene) : Prop where
  stored : s.context.document < s.editor.store.length
  issued : ∀ l ∈ s.document.listeners, l.id < s.document.nextListener
  wellFormed : s.selections.WellFormed
  within : s.selections.Within (IsPosition s.document.text)

/-- **`s.Settled`** — the document of the context has issued the trackers of the clients that are on
it, and its history can be replayed. -/
structure Settled (s : Scene) : Prop where
  issued : ∀ ctx, s.editor.clients.Holds ctx → ctx.document = s.context.document →
    ctx.tracker < s.document.nextListener
  replayable : s.document.Replayable

theorem document_drafted {s : Scene} (h : s.context.document < s.editor.store.length) :
    s.drafted.editor.document s.context.document = (s.document.track s.selections).2 :=
  (Editor.document_setDocument _ _ _ _).trans (if_pos ⟨rfl, h⟩)

theorem document_iterating {s : Scene} (h : s.context.document < s.editor.store.length) :
    s.iterating.editor.document s.context.document =
      ((s.document.track s.selections).2.track s.selections).2 := by
  rw [iterating, tracking, Editor.document_setDocument, if_pos, document_drafted h]
  exact ⟨rfl, by simpa [drafted, Editor.draft, Editor.newContext, Editor.setDocument] using h⟩

theorem passTracker_eq {s : Scene} (h : s.context.document < s.editor.store.length) :
    s.passTracker = s.document.nextListener + 1 := by
  rw [passTracker, document_drafted h]
  rfl

/-- The first pass finds everything ready. -/
theorem Sound.ready {s : Scene} (h : s.Sound) :
    Ready s.context.document s.passTracker s.selections s.iterating := by
  have hdocument := document_iterating h.stored
  have hdraft : s.iterating.context.tracker = s.document.nextListener := rfl
  have hne : s.iterating.context.tracker ≠ s.passTracker := by
    rw [hdraft, passTracker_eq h.stored]
    omega
  refine ⟨?_, ?_, ?_, fun _ => hne⟩
  · rw [hdocument, passTracker_eq h.stored]
    refine Document.tracked?_track (fun l hl => ?_) _
    rcases List.mem_append.mp hl with hl | hl
    · exact lt_trans (h.issued l hl) (Nat.lt_succ_self _)
    · rw [List.mem_singleton.mp hl]
      exact Nat.lt_succ_self _
  · rw [hdocument]
    exact h.within
  · have hon : s.iterating.document = s.iterating.editor.document s.context.document := rfl
    rw [hon, hdocument, hdraft, Document.track, Document.tracked?_subscribe]
    · rw [Document.tracked?_track h.issued]
      rfl
    · exact (Nat.lt_succ_self _).ne

/-- The trackers of the draft and of the passes are new, so no client has them. -/
theorem Settled.guards {s : Scene} {tracker : Nat} (h : s.Settled) (hsound : s.Sound)
    (hle : s.document.nextListener ≤ tracker) (hlt : tracker < s.document.nextListener + 2) :
    s.iterating.editor.Guards s.context.document tracker := by
  have hdocument := document_iterating hsound.stored
  refine ⟨?_, ?_, ?_, fun ctx hctx hon => ?_⟩
  · simpa [iterating, tracking, drafted, Editor.draft, Editor.newContext, Editor.setDocument]
      using hsound.stored
  · rw [hdocument]
    exact hlt
  · rw [hdocument]
    exact h.replayable.of_eq rfl rfl rfl
  · exact (lt_of_lt_of_le (h.issued ctx hctx hon) hle).ne

/-- The first pass works apart from the tracker of the passes. -/
theorem Settled.worksApart {s : Scene} (h : s.Settled) (hsound : s.Sound) :
    WorksApart s.context.document s.passTracker s.iterating := by
  have htracker := passTracker_eq hsound.stored
  refine ⟨?_, ?_, hsound.ready.tracked, hsound.ready.apart⟩
  · rw [htracker]
    exact h.guards hsound (Nat.le_succ _) (Nat.lt_succ_self _)
  · exact h.guards hsound le_rfl (Nat.lt_succ_of_lt (Nat.lt_succ_self _))

/-! ## Which selections stay apart -/

/-- The selections of a list, carried through the events of the first `k` passes. -/
def carriedBy (l : SelectionList) (events : List (List Event)) (k : Nat) : List Selection :=
  l.selections.map (·.map (carryAll (events.take k).flatten))

/-- The selection that pass `k` visits: the `k`-th of those that stay apart by then. -/
noncomputable def visit (l : SelectionList) (events : List (List Event)) (k : Nat) : Nat :=
  Nat.nth (Apart (carriedBy l events k)) k

section Visiting

variable {l : SelectionList} {events : List (List Event)}

theorem monotone_take (h : ∀ event ∈ events.flatten, Monotone event.carry) (k : Nat) :
    ∀ event ∈ (events.take k).flatten, Monotone event.carry := by
  intro event hevent
  obtain ⟨happened, hhappened, hmem⟩ := List.mem_flatten.mp hevent
  exact h event (List.mem_flatten.mpr ⟨happened, List.mem_of_mem_take hhappened, hmem⟩)

@[simp] theorem length_carriedBy (k : Nat) : (carriedBy l events k).length = l.length := by
  simp [carriedBy, SelectionList.length]

theorem joins_carriedBy (hl : l.WellFormed) (h : ∀ event ∈ events.flatten, Monotone event.carry)
    (k : Nat) : Joins (carriedBy l events k) (l.follow (events.take k).flatten).selections :=
  (SelectionList.joins_follow hl (monotone_take h k)).1

theorem inOrder_carriedBy (hl : l.WellFormed) (h : ∀ event ∈ events.flatten, Monotone event.carry)
    (k : Nat) : InOrder (carriedBy l events k) :=
  hl.inOrder.map (carryAll_monotone (monotone_take h k))

/-- Later events part nothing that has come to touch. -/
theorem apart_carriedBy_succ (h : ∀ event ∈ events.flatten, Monotone event.carry) {k i : Nat}
    (hi : Apart (carriedBy l events (k + 1)) i) : Apart (carriedBy l events k) i := by
  -- pass `k` has added its events to those of the passes before it
  have hsplit : (events.take (k + 1)).flatten =
      (events.take k).flatten ++ (events[k]?.toList).flatten := by
    rw [List.take_add_one, List.flatten_append]
  have hlater : ∀ event ∈ (events[k]?.toList).flatten, Monotone event.carry := fun event hevent =>
    monotone_take h (k + 1) event (hsplit ▸ List.mem_append_right _ hevent)
  refine apart_of_apart_map (carryAll_monotone hlater) ?_
  simpa [carriedBy, hsplit, carryAll_append, Selection.map, Function.comp_def] using hi

/-- The selection that the tracker has at index `k` is the image of the one visited. -/
theorem visit_spec (hl : l.WellFormed) (h : ∀ event ∈ events.flatten, Monotone event.carry)
    {k : Nat} {y : Selection} (hy : (l.follow (events.take k).flatten).get? k = some y) :
    Apart (carriedBy l events k) (visit l events k) ∧
      Nat.count (Apart (carriedBy l events k)) (visit l events k) = k ∧
      IsImage (carriedBy l events k) (visit l events k) y := by
  obtain ⟨i, hapart, hcount, himage⟩ :=
    (joins_carriedBy hl h k).exists_apart (inOrder_carriedBy hl h k) hy
  have hvisit : visit l events k = i := by
    have hnth := Nat.nth_count hapart
    rwa [hcount] at hnth
  rw [hvisit]
  exact ⟨hapart, hcount, himage⟩

/-- The passes walk by index through the selections that stay apart. -/
theorem visits_of_given (hl : l.WellFormed) (h : ∀ event ∈ events.flatten, Monotone event.carry)
    (hgiven : ∀ k < events.length, ∃ y, (l.follow (events.take k).flatten).get? k = some y)
    (hended : events.length < l.length → (l.follow events.flatten).get? events.length = none) :
    Visits (fun k => Apart (carriedBy l events k)) (visit l events) events.length l.length where
  lt_size k i hi := by simpa using apart_lt hi
  thins k i hi := apart_carriedBy_succ h hi
  visit_stands k hk := (visit_spec hl h (hgiven k hk).choose_spec).1
  count_visit k hk := (visit_spec hl h (hgiven k hk).choose_spec).2.1
  count_size := by
    rcases Nat.lt_or_ge events.length l.length with hlt | hge
    · have hlength := (joins_carriedBy hl h events.length).length_eq
      have hnone := List.getElem?_eq_none_iff.mp (hended hlt)
      rw [List.take_length, length_carriedBy] at hlength
      rwa [hlength] at hnone
    · exact le_trans (Nat.count_le _) hge

theorem flatten_take_of_flatten_eq_nil (h : events.flatten = []) (k : Nat) :
    (events.take k).flatten = [] := by
  rw [List.flatten_eq_nil_iff] at h ⊢
  exact fun happened hmem => h happened (List.mem_of_mem_take hmem)

/-- Without events, pass `k` visits the `k`-th selection. -/
theorem visit_of_no_events (hl : l.WellFormed) (h : events.flatten = []) {k : Nat}
    (hk : k < l.length) : visit l events k = k := by
  have hcarried : carriedBy l events k = l.selections := by
    rw [carriedBy, flatten_take_of_flatten_eq_nil h]
    exact List.map_id _
  have hcount : Nat.count (Apart l.selections) k = k :=
    Nat.count_iff_forall.mpr fun i hi => hl.apart (lt_trans hi hk)
  have hnth := Nat.nth_count (hl.apart hk)
  rw [hcount] at hnth
  rw [visit, hcarried, hnth]

end Visiting

/-! ## The whole iteration -/

theorem monotone_of_passEvolves {document tracker : Nat} {events : List (List Event)}
    {passes : List Pass}
    (h : List.Forall₂ (fun happened p => PassEvolves document tracker happened p.start p.stop)
      events passes) : ∀ event ∈ events.flatten, Monotone event.carry := by
  induction h with
  | nil => simp
  | cons hp _ ih =>
    rw [List.flatten_cons]
    exact List.forall_mem_append.mpr ⟨hp.evolves.monotone, ih⟩

/-- Passes over all indices of a list are given what the tracker has at the index of the pass. -/
theorem Passes.given_range {document tracker : Nat} {l : SelectionList} {body : Act Scene Unit}
    {passes : List Pass} {s t : Scene} {events : List (List Event)}
    (h : Passes document tracker body (List.range l.length) s passes t)
    (hready : Ready document tracker l s)
    (hbody : List.Forall₂
      (fun happened p => PassEvolves document tracker happened p.start p.stop) events passes) :
    (∀ k p, passes[k]? = some p → (l.follow (events.take k).flatten).get? k = some p.selection ∧
      (p.start.context.document = document → p.start.selections = .single p.selection)) ∧
    (passes.length < l.length → (l.follow events.flatten).get? passes.length = none) := by
  obtain ⟨hgiven, hended⟩ := h.given hready hbody
  constructor
  · intro k p hp
    obtain ⟨index, hindex, hget, hselected⟩ := hgiven k p hp
    obtain ⟨hk, hindex⟩ := List.getElem?_eq_some_iff.mp hindex
    rw [List.getElem_range] at hindex
    subst hindex
    exact ⟨hget, hselected⟩
  · intro hlt
    exact hended _ (List.getElem?_range hlt)

/-- Without events, the passes are those of all selections as they are. -/
theorem selections_of_no_events {l : SelectionList} {passes : List Pass}
    {events : List (List Event)} (hnone : events.flatten = [])
    (hgiven : ∀ k p, passes[k]? = some p →
      (l.follow (events.take k).flatten).get? k = some p.selection)
    (hended : passes.length < l.length → (l.follow events.flatten).get? passes.length = none) :
    passes.map (·.selection) = l.selections := by
  refine List.ext_getElem? ?_
  intro k
  rw [List.getElem?_map]
  cases hp : passes[k]? with
  | some p =>
    have hget := hgiven k p hp
    rw [flatten_take_of_flatten_eq_nil hnone] at hget
    exact hget.symm
  | none =>
    have hk : passes.length ≤ k := List.getElem?_eq_none_iff.mp hp
    have hle : l.length ≤ passes.length := by
      by_contra hlt
      have hlt := Nat.not_le.mp hlt
      have hget := hended hlt
      rw [hnone] at hget
      exact absurd hlt (Nat.not_lt.mpr (List.getElem?_eq_none_iff.mp hget))
    exact (List.getElem?_eq_none_iff.mpr (le_trans hle hk)).symm

/-- **`Itinerary document l events passes`** — which of the selections `l` the passes visited, when
the bodies of the passes announced `events`. -/
structure Itinerary (document : Nat) (l : SelectionList) (events : List (List Event))
    (passes : List Pass) : Prop where
  /-- The passes go through the text in order and visit no selection twice. -/
  increasing : ∀ j k, j < k → k < passes.length → visit l events j < visit l events k
  /-- A pass visits a selection that no edit of an earlier pass has merged into one before it. -/
  apart : ∀ k < passes.length, Apart (carriedBy l events k) (visit l events k)
  /-- A pass is given the image of the selection that it visits. -/
  image : ∀ k p, passes[k]? = some p →
    IsImage (carriedBy l events k) (visit l events k) p.selection
  /-- A context that is on the document still has just that selection. -/
  selected : ∀ p ∈ passes, p.start.context.document = document →
    p.start.selections = .single p.selection
  /-- Every selection that stays apart until its turn comes is visited, exactly if none that was
  visited is merged into one before it while a later one stays apart. -/
  complete_iff :
    Complete (fun k => Apart (carriedBy l events k)) (visit l events) passes.length l.length ↔
      Steady (fun k => Apart (carriedBy l events k)) (visit l events) passes.length
  /-- Without events, the passes are those of all selections as they are. -/
  unchanged : events.flatten = [] →
    passes.map (·.selection) = l.selections ∧ ∀ k < l.length, visit l events k = k

/-- Passes over all selections of a tracker, whose bodies leave it alone, are those of an
itinerary. -/
theorem Passes.itinerary {document tracker : Nat} {l : SelectionList} {body : Act Scene Unit}
    {passes : List Pass} {s t : Scene} {events : List (List Event)}
    (h : Passes document tracker body (List.range l.length) s passes t)
    (hready : Ready document tracker l s) (hl : l.WellFormed)
    (hbody : List.Forall₂
      (fun happened p => PassEvolves document tracker happened p.start p.stop) events passes) :
    Itinerary document l events passes := by
  obtain ⟨hgiven, hended⟩ := h.given_range hready hbody
  have hlength : events.length = passes.length := hbody.length_eq
  have hmono := monotone_of_passEvolves hbody
  have hvisits : Visits (fun k => Apart (carriedBy l events k)) (visit l events) passes.length
      l.length := by
    rw [← hlength] at hended ⊢
    refine visits_of_given hl hmono (fun k hk => ?_) hended
    exact ⟨_, (hgiven k passes[k] (List.getElem?_eq_getElem (hlength ▸ hk))).1⟩
  exact {
    increasing := fun j k => hvisits.strictMono
    apart := hvisits.visit_stands
    image := fun k p hp => (visit_spec hl hmono (hgiven k p hp).1).2.2
    selected := fun p hp => by
      obtain ⟨k, hk⟩ := List.mem_iff_getElem?.mp hp
      exact (hgiven k p hk).2
    complete_iff := hvisits.complete_iff
    unchanged := fun hnone =>
      ⟨selections_of_no_events hnone (fun k p hp => (hgiven k p hp).1) hended,
        fun k hk => visit_of_no_events hl hnone hk⟩ }

/-- **What the passes visit** — an act that is sent to a draft once per selection, and succeeds, has
made passes; and if their bodies announced `events` and did nothing else to the tracker of the
passes, these are the passes of an itinerary. The bodies of a command line always do just that. -/
theorem iteration_visits {s : Scene} {flags : ContextFlags} {body : Act Scene Unit}
    (hdraft : flags.draft = true) (hitersel : flags.itersel = true)
    (hsound : (s.target flags).Sound) (hrun : ((route flags body).perform s).1 = .ok ()) :
    let document := (s.target flags).context.document
    let tracker := (s.target flags).passTracker
    let l := (s.target flags).selections
    ∃ passes t,
      Passes document tracker body (List.range l.length) (s.target flags).iterating passes t ∧
      (∀ events,
        List.Forall₂ (fun happened p => PassEvolves document tracker happened p.start p.stop)
          events passes →
        Itinerary document l events passes) ∧
      ∀ env line, body = execute env line → (s.target flags).Settled →
        ∃ events, List.Forall₂
          (fun happened p => PassEvolves document tracker happened p.start p.stop)
          events passes := by
  intro document tracker l
  obtain ⟨passes, t, hpasses⟩ := exists_passes_route hdraft hitersel hrun
  refine ⟨passes, t, hpasses, ?_, ?_⟩
  · intro events hbody
    exact hpasses.itinerary hsound.ready hsound.wellFormed hbody
  · rintro env line rfl hsettled
    exact hpasses.exists_events (moving_execute env line) (hsettled.worksApart hsound)

set_option maxRecDepth 100000 in
/-- Backspacing in three places one behind the other: the second pass merges what the first two have
visited, and the third selection is not visited. -/
theorem iteration_visits_of_backspaces :
    let points : SelectionList := ⟨[.point ⟨0, 1⟩, .point ⟨0, 2⟩, .point ⟨0, 3⟩], 0⟩
    let d : Document :=
      { name := "notes", text := "abcdef\n".toList, nextListener := 1
        listeners := [⟨0, .tracker points⟩] }
    let s : Scene :=
      { editor := { store := [d], commands := Command.coreTable }
        context := { name := "main", document := 0, tracker := 0 } }
    let flags : ContextFlags := { draft := true, itersel := true }
    let body := execute {} "exec i<backspace><esc>"
    (s.target flags).Sound ∧ (s.target flags).Settled ∧
      ((route flags body).perform s).1 = .ok () ∧
      ((route flags body).perform s).2.document.text = "cdef\n".toList ∧
      ∃ passes t events, Passes 0 2 body (List.range 3) s.iterating passes t ∧
        List.Forall₂ (fun happened p => PassEvolves 0 2 happened p.start p.stop) events passes ∧
        Itinerary 0 points events passes := by
  intro points d s flags body
  have hsound : (s.target flags).Sound := by
    refine ⟨Nat.zero_lt_one, ?_, ⟨by decide, ?_⟩, ?_⟩
    · intro l hl
      rw [List.mem_singleton.mp hl]
      exact Nat.zero_lt_one
    · show List.Pairwise _ [Selection.point ⟨0, 1⟩, .point ⟨0, 2⟩, .point ⟨0, 3⟩]
      decide
    · intro x hx
      have hx : x ∈ [Selection.point ⟨0, 1⟩, .point ⟨0, 2⟩, .point ⟨0, 3⟩] := hx
      unfold IsPosition
      revert x
      decide
  have hsettled : (s.target flags).Settled := by
    refine ⟨?_, .inl ⟨_, (Timeline.start_represents "notes" "abcdef\n").of_eq rfl rfl rfl⟩⟩
    rintro ctx ⟨name, hctx⟩
    cases hctx
  have hrun : ((route flags body).perform s).1 = .ok () := by cbv
  refine ⟨hsound, hsettled, hrun, by cbv, ?_⟩
  obtain ⟨passes, t, hpasses, hitinerary, hevents⟩ := iteration_visits rfl rfl hsound hrun
  obtain ⟨events, hbody⟩ := hevents {} "exec i<backspace><esc>" rfl hsettled
  exact ⟨passes, t, events, hpasses, hbody, hitinerary events hbody⟩

end ModalEdit.Scene
