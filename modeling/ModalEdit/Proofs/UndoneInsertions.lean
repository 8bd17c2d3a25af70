import Mathlib
import ModalEdit.Proofs.RecordedEdits

/-!
# Undoing insertions

An insertion pushes coordinates apart and never onto one another, so no two selections come to touch
because of it, and what it moved can be moved back: the erasure that takes it back brings every
coordinate home, the one at the place of the insertion included (`Turns.carry_inverse`). That is not
so the other way round, for an erasure draws together what it erases.

Hence a tracker gets its selections back when a whole group of insertions is undone, by induction on
the changes of the group, of which the last is taken back first
(`TurnAll.follow_inverse`, `undone_insertions_restore_selections`).
-/

namespace ModalEdit

open Text

/-! ## Coordinates -/

namespace Coord

variable {start stop : Coord}

/-- Erasing what was inserted brings a coordinate back. -/
theorem afterErase_afterInsert (h : start ≤ stop) :
    Function.LeftInverse (fun c => afterErase c start stop) fun c => afterInsert c start stop := by
  intro c
  dsimp only
  obtain ⟨added, rfl⟩ := exists_advance_of_le h
  rcases lt_or_ge c start with hc | hc
  · rw [afterInsert_of_lt hc, afterErase_of_lt hc]
  obtain ⟨e, rfl⟩ := exists_advance_of_le hc
  rw [afterInsert_advance, afterErase_advance]

theorem afterInsert_strictMono (h : start ≤ stop) :
    StrictMono fun c => afterInsert c start stop :=
  (afterInsert_monotone h).strictMono_of_injective (afterErase_afterInsert h).injective

end Coord

/-! ## Selections -/

namespace SelectionList

variable {l : SelectionList}

/-- Where nothing comes to touch, nothing is merged. -/
theorem mapCoords_of_strictMono {f : Coord → Coord} (h : l.WellFormed) (hf : StrictMono f) :
    l.mapCoords f = ⟨l.selections.map (·.map f), l.mainIndex⟩ := by
  refine normalize_of_wellFormed ⟨?_, ?_⟩
  · show l.mainIndex < (l.selections.map (·.map f)).length
    rw [List.length_map]
    exact h.main_lt
  · refine List.pairwise_map.mpr (h.separated.imp ?_)
    intro s t hst
    rw [Selection.stop_map s hf.monotone, Selection.start_map t hf.monotone]
    exact hf hst

/-- A list that was moved so is moved back by whatever takes back the move of its coordinates. -/
theorem mapCoords_mapCoords {f g : Coord → Coord} (h : l.WellFormed) (hf : StrictMono f)
    (hgf : Function.LeftInverse g f) : (l.mapCoords f).mapCoords g = l := by
  have hselections : (l.selections.map (·.map f)).map (·.map g) = l.selections := by
    rw [List.map_map]
    conv_rhs => rw [← List.map_id l.selections]
    refine List.map_congr_left fun s _ => ?_
    simp [Selection.map, hgf s.anchor, hgf s.cursor]
  rw [mapCoords_of_strictMono h hf, mapCoords, transform, hselections]
  exact normalize_of_wellFormed h

end SelectionList

/-! ## Changes -/

/-- **`change.IsInsertion`** — the change inserts. -/
def Change.IsInsertion : Change → Prop
  | .insert _ _ => True
  | .erase _ _ => False

namespace Change.Turns

variable {change : Change} {before after : List Char}

/-- **An insertion and back** — the event of an insertion moves coordinates strictly apart, and the
event of the erasure that takes it back moves each of them to where it was. -/
theorem carry_inverse (h : change.Turns before after) (hchange : change.IsInsertion) :
    StrictMono (Document.eventOf before change).carry ∧
      Function.LeftInverse (Document.eventOf after change.inverse).carry
        (Document.eventOf before change).carry := by
  cases h with
  | insert a added b =>
    have hle : endCoord a ≤ (endCoord a).advance (endCoord added) := Coord.le_advance _ _
    rw [Change.inverse, Document.eventOf_insert, Document.eventOf_erase]
    exact ⟨Coord.afterInsert_strictMono hle, Coord.afterErase_afterInsert hle⟩
  | erase a removed b => exact hchange.elim

theorem carry_carry_inverse (h : change.Turns before after) (hchange : change.IsInsertion)
    {l : SelectionList} (hl : l.WellFormed) :
    (l.carry (Document.eventOf before change)).carry (Document.eventOf after change.inverse) = l := by
  obtain ⟨hmono, hback⟩ := h.carry_inverse hchange
  exact SelectionList.mapCoords_mapCoords hl hmono hback

end Change.Turns

/-- The events of changes that are made in a text, one after the other. -/
def Document.eventsOf (text : List Char) : List Change → List Event
  | [] => []
  | change :: changes => eventOf text change :: eventsOf (change.applyTo text) changes

namespace TurnAll

open Document (eventsOf)

variable {changes later : List Change} {before between after : List Char}

theorem eventsOf_append (h : TurnAll changes before between) (later : List Change) :
    eventsOf before (changes ++ later) = eventsOf before changes ++ eventsOf between later := by
  induction h with
  | nil => rfl
  | cons hchange _ ih => rw [List.cons_append, eventsOf, eventsOf, hchange.applyTo_eq, ih,
      List.cons_append]

/-- **A group of insertions and back** — by induction on the group: its first change is taken back
last, when all the others have been. -/
theorem follow_inverse (h : TurnAll changes before after)
    (hchanges : ∀ change ∈ changes, change.IsInsertion) {l : SelectionList} (hl : l.WellFormed) :
    (l.follow (eventsOf before changes)).follow
      (eventsOf after (changes.reverse.map Change.inverse)) = l := by
  induction h generalizing l with
  | nil => rfl
  | @cons change changes before between after hchange hrest ih =>
    obtain ⟨hinsertion, hinsertions⟩ := List.forall_mem_cons.mp hchanges
    have hcarried : (l.carry (Document.eventOf before change)).WellFormed :=
      SelectionList.mapCoords_wellFormed _ hl.main_lt
    have hfirst : l.follow (eventsOf before (change :: changes)) =
        (l.carry (Document.eventOf before change)).follow (eventsOf between changes) := by
      rw [eventsOf, hchange.applyTo_eq]
      rfl
    have hevents : eventsOf after ((change :: changes).reverse.map Change.inverse) =
        eventsOf after (changes.reverse.map Change.inverse) ++
          [Document.eventOf between change.inverse] := by
      rw [List.reverse_cons, List.map_append, hrest.inverse.eventsOf_append]
      rfl
    rw [hfirst, hevents, SelectionList.follow_append, ih hinsertions hcarried]
    exact hchange.carry_carry_inverse hinsertion hl

end TurnAll

/-! ## Operations that leave a tracker to the text -/

/-- **`op.Spares tracker`** — the operation neither gives the tracker other selections nor drops
it. -/
def Document.Operation.Spares (op : Document.Operation) (tracker : Nat) : Prop :=
  match op with
  | .assign other _ | .leave other => other ≠ tracker
  | _ => True

/-- **`op.GoesOn`** — the operation neither closes the undo group nor takes one back or makes one
again. -/
def Document.Operation.GoesOn : Document.Operation → Prop
  | .commit | .undo | .redo => False
  | _ => True

namespace Document

variable {d e e' : Document} {changes later : List Change} {tracker : Nat} {l : SelectionList}

/-- A new listener takes its place behind those that there are. -/
theorem tracked?_subscribe_of_some (h : d.tracked? tracker = some l) (role : ListenerRole) :
    (d.subscribe role).2.tracked? tracker = some l := by
  obtain ⟨before, after, hlisteners, hbefore⟩ := tracked?_eq_some_iff.mp h
  rw [tracked?_eq_some_iff, subscribe, hlisteners, List.append_assoc]
  exact ⟨before, _, rfl, hbefore⟩

theorem tracked?_record (change : Change) (h : d.tracked? tracker = some l) :
    (d.record change).tracked? tracker = some l := by
  rwa [tracked?_congr (listeners_record d change)]

theorem tracked?_replay (h : d.tracked? tracker = some l) (changes : List Change) :
    (d.replay changes).2.tracked? tracker = some (l.follow (eventsOf d.text changes)) := by
  induction changes generalizing d l with
  | nil => exact h
  | cons change changes ih =>
    rw [replay_cons, ih (tracked?_apply h change), text_apply]
    rfl

theorem Obliging.replay (h : d.Obliging) (changes : List Change) : (d.replay changes).1 = none := by
  induction changes generalizing d with
  | nil => rfl
  | cons change changes ih =>
    obtain ⟨hnone, hlater⟩ := h.apply change
    rw [replay_cons, hnone, ih hlater]
    rfl

/-- **`d.Leads spared changes e`** — the changes, the latest first, were made in `d` and recorded,
and the `spared` trackers have done nothing but follow them. -/
structure Leads (spared : Nat → Prop) (d : Document) (changes : List Change) (e : Document) :
    Prop where
  written : d.Written changes e
  tracked : ∀ tracker l, spared tracker → d.tracked? tracker = some l →
    e.tracked? tracker = some (l.follow (eventsOf d.text changes.reverse))

namespace Leads

variable {spared spared' : Nat → Prop}

/-- What leaves the text, the history and the spared trackers alone. -/
theorem of_aside (htext : e.text = d.text) (htimestamp : e.timestamp = d.timestamp)
    (hnoUndo : e.noUndo = d.noUndo) (hhistory : e.history = d.history)
    (htracked : ∀ tracker l, spared tracker → d.tracked? tracker = some l →
      e.tracked? tracker = some l) : d.Leads spared [] e :=
  ⟨(Written.refl d).aside htext htimestamp hnoUndo hhistory, htracked⟩

theorem refl (d : Document) : d.Leads spared [] d :=
  of_aside rfl rfl rfl rfl fun _ _ _ hl => hl

theorem trans (h : d.Leads spared changes e) (h' : e.Leads spared' later e') :
    d.Leads (fun tracker => spared tracker ∧ spared' tracker) (later ++ changes) e' := by
  refine ⟨h.written.trans h'.written, ?_⟩
  intro tracker l ⟨hspared, hspared'⟩ hl
  have hbetween := h.tracked tracker l hspared hl
  rw [h'.tracked tracker _ hspared' hbetween, List.reverse_append,
    h.written.turns.eventsOf_append, SelectionList.follow_append]

theorem change {change : Change} {after : List Char} (h : change.Turns d.text after) :
    d.Leads spared [change] ((d.record change).apply change).2 := by
  refine ⟨(Written.refl d).step h, ?_⟩
  intro tracker l _ hl
  rw [tracked?_apply (tracked?_record change hl), text_record]
  rfl

end Leads

/-- What records nothing leaves the trackers alone that it spares. -/
theorem leads_quiet {op : Operation} (hop : op.GoesOn) (hquiet : op.IsQuiet d.text) :
    d.Leads op.Spares [] (d.perform op).2 := by
  cases op with
  | insert | undo | redo => exact hquiet.elim
  | commit => exact hop.elim
  | erase start stop =>
    rw [perform, d.erase_of_le start stop hquiet]
    exact .refl d
  | listen role =>
    exact .of_aside rfl rfl rfl rfl fun _ _ _ hl => tracked?_subscribe_of_some hl role
  | copy other =>
    rw [perform]
    split
    · exact .of_aside rfl rfl rfl rfl fun _ _ _ hl => tracked?_subscribe_of_some hl _
    · exact .refl d
  | assign other selections =>
    rw [perform, assign]
    cases (selections.mapCoords (clamp d.text)).validate with
    | error e => exact .refl d
    | ok _ =>
      refine .of_aside rfl rfl rfl rfl ?_
      intro tracker l hspared hl
      exact (tracked?_giving_of_ne hspared.symm _).trans hl
  | leave other =>
    refine .of_aside rfl rfl rfl rfl ?_
    intro tracker l hspared hl
    exact (tracked?_unsubscribe hspared.symm).trans hl

/-- **One operation** — it records what it changes, and the trackers follow that it spares. -/
theorem exists_leads_perform {op : Operation} (hop : op.GoesOn) :
    ∃ changes, d.Leads op.Spares changes (d.perform op).2 := by
  cases op with
  | insert place added => exact ⟨_, .change (d.insertion_turns place added)⟩
  | erase start stop =>
    rcases Nat.lt_or_ge (offset d.text start) (offset d.text stop) with hlt | hle
    · refine ⟨[d.erasure start stop], ?_⟩
      rw [perform, erase_snd hlt]
      exact .change (erasure_turns hlt)
    · exact ⟨[], leads_quiet hop hle⟩
  | commit | undo | redo => exact hop.elim
  | listen | copy | assign | leave => exact ⟨[], leads_quiet hop trivial⟩

/-- **Many operations** — by induction on them. -/
theorem exists_leads_run {ops : List Operation} (hops : ∀ op ∈ ops, op.GoesOn) :
    ∃ changes, d.Leads (fun tracker => ∀ op ∈ ops, op.Spares tracker) changes (d.run ops).2 := by
  induction ops generalizing d with
  | nil => exact ⟨[], .refl d⟩
  | cons op ops ih =>
    obtain ⟨hop, hrest⟩ := List.forall_mem_cons.mp hops
    obtain ⟨changes, hfirst⟩ := exists_leads_perform (d := d) hop
    obtain ⟨later, hlater⟩ := ih (d := (d.perform op).2) hrest
    simp only [List.forall_mem_cons]
    exact ⟨later ++ changes, hfirst.trans hlater⟩

/-! ## Quiet operations -/

/-- **`d.Rests spared e`** — the text is that of `d`, and so are the spared trackers and the groups
that a commit leaves. -/
structure Rests (spared : Nat → Prop) (d e : Document) : Prop where
  text : e.text = d.text
  history : e.commit.history = d.commit.history
  tracked : ∀ tracker l, spared tracker → d.tracked? tracker = some l →
    e.tracked? tracker = some l

theorem rests_perform {op : Operation} (hop : op.IsQuiet d.text) :
    d.Rests op.Spares (d.perform op).2 := by
  by_cases hgoes : op.GoesOn
  · have hleads := leads_quiet hgoes hop
    exact ⟨hleads.written.text_eq, congrArg History.commit hleads.written.history, hleads.tracked⟩
  · cases op with
    | commit =>
      have htwice : d.commit.commit = d.commit := commit_of_none (pending_commit d)
      exact ⟨rfl, congrArg Document.history htwice, fun _ _ _ hl => hl⟩
    | undo | redo => exact hop.elim
    | insert | erase | listen | copy | assign | leave => exact (hgoes trivial).elim

theorem rests_run {ops : List Operation} (hops : ∀ op ∈ ops, op.IsQuiet d.text) :
    d.Rests (fun tracker => ∀ op ∈ ops, op.Spares tracker) (d.run ops).2 := by
  induction ops generalizing d with
  | nil => exact ⟨rfl, rfl, fun _ _ _ hl => hl⟩
  | cons op ops ih =>
    obtain ⟨hop, hrest⟩ := List.forall_mem_cons.mp hops
    have hfirst := rests_perform hop
    have hlater := ih (d := (d.perform op).2) (hfirst.text.symm ▸ hrest)
    refine ⟨hlater.text.trans hfirst.text, hlater.history.trans hfirst.history, ?_⟩
    intro tracker l hspared hl
    obtain ⟨hspares, hspares'⟩ := List.forall_mem_cons.mp hspared
    exact hlater.tracked tracker l hspares' (hfirst.tracked tracker l hspares hl)

/-! ## Undo -/

/-- **Undoing insertions restores the selections** — operations start a new undo group and record
nothing but insertions in it, any number of them, at any place and of any text; others that record
nothing may follow. Then undo takes the group back, and it gives back not only the text but every
tracker its list, with anchors, cursors, captures and the main index, as it was before the group,
unless the tracker was itself given other selections or dropped. Listeners may come and go, and
those that fail change nothing but the answer. -/
theorem undone_insertions_restore_selections (hrecording : d.noUndo = false)
    (hnone : d.history.pending = []) {ops quiet : List Operation}
    (hops : ∀ op ∈ ops, op.GoesOn) (hsome : (d.run ops).2.history.pending ≠ [])
    (hgroup : ∀ change ∈ (d.run ops).2.history.pending, change.IsInsertion)
    (hquiet : ∀ op ∈ quiet, op.IsQuiet (d.run ops).2.text) :
    let e := ((d.run ops).2.run quiet).2
    e.undo.1 ≠ .ok false ∧ (e.Obliging → e.undo.1 = .ok true) ∧ e.undo.2.text = d.text ∧
      ∀ tracker l, d.tracked? tracker = some l → l.WellFormed →
        (∀ op ∈ ops ++ quiet, op.Spares tracker) → e.undo.2.tracked? tracker = some l := by
  intro e
  obtain ⟨changes, hleads⟩ := exists_leads_run (d := d) hops
  have hwritten := hleads.written
  have hpending : (d.run ops).2.history.pending = changes := by
    rw [hwritten.pending_eq hrecording, hnone, List.append_nil]
  rw [hpending] at hsome hgroup
  have hrests := rests_run hquiet
  -- undo closes the group and replays its inverses
  have hclosed := hwritten.history_commit hrecording hsome
  rw [← hrests.history] at hclosed
  have hundo := undo_of_cons (d := e) (by rw [hclosed])
  rw [hnone, List.append_nil] at hundo
  have hback : TurnAll (changes.map Change.inverse) e.commit.text d.text := by
    have hinverse := hwritten.turns.inverse
    rw [List.reverse_reverse] at hinverse
    exact hrests.text.symm ▸ hinverse
  rw [hundo]
  refine ⟨unlessFailed_true_ne _, ?_, text_replay hback, ?_⟩
  · intro hobliging
    have hcommitted : e.commit.Obliging := hobliging
    rw [hcommitted.replay]
    rfl
  · intro tracker l hl hwell hspares
    obtain ⟨hspares, hspares'⟩ := List.forall_mem_append.mp hspares
    have hheld : e.commit.tracked? tracker = _ :=
      hrests.tracked tracker _ hspares' (hleads.tracked tracker l hspares hl)
    have hround := hwritten.turns.follow_inverse (by simpa using hgroup) hwell
    rw [List.reverse_reverse, ← hrests.text] at hround
    exact (tracked?_replay hheld _).trans (congrArg some hround)

theorem undone_insertions_restore_selections_over_lines :
    let held : SelectionList := ⟨[⟨⟨0, 3⟩, ⟨0, 1⟩, ["é"]⟩, .point ⟨1, 0⟩], 1⟩
    let d : Document :=
      { name := "notes", text := ['a', 'é', '\n', 'b'], listeners := [⟨7, .tracker held⟩] }
    let ops : List Operation :=
      [.insert ⟨0, 1⟩ ['x', '\n', 'y'], .leave 3, .insert ⟨1, 1⟩ ['ü'], .erase ⟨2, 0⟩ ⟨2, 0⟩,
        .insert ⟨0, 0⟩ ['\n']]
    (d.run ops).2.history.pending =
        [.insert 0 ['\n'], .insert 4 ['ü'], .insert 1 ['x', '\n', 'y']] ∧
      (d.run ops).2.tracked? 7 = some ⟨[⟨⟨2, 5⟩, ⟨2, 3⟩, ["é"]⟩, .point ⟨3, 0⟩], 1⟩ ∧
      ((d.run ops).2.run [.commit, .copy 7]).2.undo.2.text = d.text ∧
      ((d.run ops).2.run [.commit, .copy 7]).2.undo.2.tracked? 7 = some held := by
  intro held d ops
  have hheld : held.WellFormed := SelectionList.validate_eq_ok_iff.mp (by decide)
  have hpending : (d.run ops).2.history.pending =
      [.insert 0 ['\n'], .insert 4 ['ü'], .insert 1 ['x', '\n', 'y']] := by cbv
  have hops : ∀ op ∈ ops, op.GoesOn := by simp [ops, Operation.GoesOn]
  have hspares : ∀ op ∈ ops ++ [.commit, .copy 7], op.Spares 7 := by simp [ops, Operation.Spares]
  have hquiet : ∀ op ∈ [.commit, .copy 7], Operation.IsQuiet (d.run ops).2.text op := by
    simp [Operation.IsQuiet]
  have hrestored := undone_insertions_restore_selections (d := d) rfl rfl hops (by simp [hpending])
    (by simp [hpending, Change.IsInsertion]) hquiet
  exact ⟨hpending, by cbv, hrestored.2.2.1, hrestored.2.2.2 7 held rfl hheld hspares⟩

end Document

end ModalEdit
