import ModalEdit.Document.MultiEdit
import ModalEdit.Proofs.Evolution
import ModalEdit.Proofs.NormalForm
import ModalEdit.Proofs.UndoTimeline

/-!
# What edits do to a document and its trackers

Whatever commands insert into a text or erase from it is a series of changes that fit (`Typed`);
what else they do to a document is to commit, undo and redo. Such an edit succeeds if no listener
fails (`Types`). Each of these is one of five steps (`EditStep`). If the history can be replayed,
undo and redo make changes that fit, like all other edits, so a tracker only ever hears of changes
(`leaves_perform`, `Typed.leaves`).
-/

namespace ModalEdit

open Text

/-! ## Listeners that do not fail -/

/-- **`l.Obliging`** — an observer does not fail from now on, and a tracker has a main selection. -/
def Listener.Obliging (l : Listener) : Prop :=
  match l.role with
  | .tracker selections => selections.mainIndex < selections.length
  | .reacting observer => observer.Obliging

/-- A listener that does not fail stays so. -/
theorem Listener.Obliging.hear {l : Listener} (h : l.Obliging) (event : Event) :
    (l.hear event).2.failure = none ∧ (l.hear event).1.Obliging := by
  obtain ⟨id, role⟩ := l
  cases role with
  | tracker selections =>
    have hmoved : (selections.carry event).WellFormed := SelectionList.mapCoords_wellFormed _ h
    refine ⟨?_, hmoved.main_lt⟩
    simp only [Listener.hear, SelectionList.validate_eq_ok_iff.mpr hmoved]
  | reacting observer => exact Observer.Obliging.hear h event

/-! ## Insertions and erasures -/

/-- **`d.Typed e`** — changes that fit lead from `d` to `e`, each of them recorded where the
document keeps a history. -/
inductive Document.Typed (d : Document) : Document → Prop
  | refl : Typed d d
  | step {e : Document} {change : Change} {after : List Char} :
    Typed d e → change.Turns e.text after → Typed d ((e.record change).apply change).2

namespace Document

variable {d e e' : Document}

theorem Typed.trans (h : d.Typed e) (h' : e.Typed e') : d.Typed e' := by
  induction h' with
  | refl => exact h
  | step _ hchange ih => exact ih.step hchange

/-- **`d.Obliging`** — no listener of the document fails at any event. -/
def Obliging (d : Document) : Prop := ∀ l ∈ d.listeners, l.Obliging

theorem Obliging.apply (h : d.Obliging) (change : Change) :
    (d.apply change).1 = none ∧ (d.apply change).2.Obliging := by
  constructor
  · rw [failure_apply, List.findSome?_eq_none_iff]
    exact fun l hl => ((h l hl).hear _).1
  · intro l hl
    rw [listeners_apply, List.mem_filter, List.mem_map] at hl
    obtain ⟨⟨told, htold, rfl⟩, -⟩ := hl
    exact ((h told htold).hear _).2

theorem Obliging.record (h : d.Obliging) (change : Change) : (d.record change).Obliging := by
  intro l hl
  rw [listeners_record] at hl
  exact h l hl

theorem Typed.obliging (h : d.Typed e) (hd : d.Obliging) : e.Obliging := by
  induction h with
  | refl => exact hd
  | step _ _ ih => exact ((ih.record _).apply _).2

theorem noUndo_record (d : Document) (change : Change) : (d.record change).noUndo = d.noUndo := by
  unfold record
  split <;> rfl

theorem Typed.noUndo_eq (h : d.Typed e) : e.noUndo = d.noUndo := by
  induction h with
  | refl => rfl
  | step _ _ ih => rw [noUndo_apply, noUndo_record, ih]

/-- Typing leaves the tables of the scope alone. -/
theorem Typed.scopes_eq (h : d.Typed e) : e.scopes = d.scopes := by
  induction h with
  | refl => rfl
  | @step e change after _ _ ih =>
    rw [← ih]
    show (e.record change).scopes = e.scopes
    unfold Document.record
    split <;> rfl

/-- **`d.Types done`** — an edit types, and it succeeds if no listener fails. -/
structure Types {α : Type} (d : Document) (done : Except SelectionError α × Document) : Prop where
  typed : d.Typed done.2
  succeeds : d.Obliging → ∃ a, done.1 = .ok a

theorem types_change {α : Type} {change : Change} {after : List Char}
    (h : change.Turns d.text after) (value : α) :
    d.Types (unlessFailed ((d.record change).apply change).1 value,
      ((d.record change).apply change).2) := by
  refine ⟨.step .refl h, fun hd => ⟨value, ?_⟩⟩
  rw [((hd.record change).apply change).1]
  rfl

theorem types_insertText (d : Document) (place : Coord) (text : List Char) :
    d.Types (d.insertText place text) := by
  have hinsert : d.Types (d.insert place text) := types_change (d.insertion_turns place text) _
  refine ⟨hinsert.typed, fun hd => ⟨(), ?_⟩⟩
  obtain ⟨stop, hstop⟩ := hinsert.succeeds hd
  rw [insertText]
  dsimp only
  rw [hstop]
  rfl

/-- The history tells whether a document that a text is inserted into keeps one. -/
theorem history_insertText_ne_iff (d : Document) (place : Coord) (text : List Char) :
    (d.insertText place text).2.history ≠ d.history ↔ d.noUndo = false := by
  have hhistory : (d.insertText place text).2.history =
      (d.record (d.insertion place text)).history := by
    show (d.insert place text).2.history = _
    rw [insert_snd, history_apply]
  have hne : ∀ change, d.history.record change ≠ d.history := by
    intro change heq
    have hlength := congrArg (·.pending.length) heq
    simp [History.record] at hlength
  rw [hhistory, record]
  cases d.noUndo with
  | true => simp
  | false => simp [hne]

theorem types_erase (d : Document) (start stop : Coord) : d.Types (d.erase start stop) := by
  rcases Nat.lt_or_ge (offset d.text start) (offset d.text stop) with hlt | hle
  · have herase : d.erase start stop = (_, _) := Prod.ext (erase_fst hlt) (erase_snd hlt)
    rw [herase]
    exact types_change (erasure_turns hlt) ()
  · rw [d.erase_of_le start stop hle]
    exact ⟨.refl, fun _ => ⟨(), rfl⟩⟩

/-- Typing at every selection is typing. -/
theorem types_editEach (tracker : Nat)
    {edit : Nat → Selection → Document → Except SelectionError Unit × Document}
    (h : ∀ index s (d : Document), d.Types (edit index s d)) (d : Document) (n : Nat) :
    d.Types (d.editEach tracker edit n) := by
  induction n generalizing d with
  | zero => exact ⟨.refl, fun _ => ⟨(), rfl⟩⟩
  | succ index ih =>
    rw [editEach]
    split
    · exact ih d
    next s _ =>
      have hedit := h index s d
      generalize edit index s d = done at hedit
      obtain ⟨result, e⟩ := done
      -- the first failure ends it; what was typed until then stays
      cases result with
      | ok _ =>
        refine ⟨hedit.typed.trans (ih e).typed, fun hd => ?_⟩
        exact (ih e).succeeds (hedit.typed.obliging hd)
      | error _ => exact hedit

theorem types_insertAll (d : Document) (tracker : Nat) (texts : List String)
    (position : InsertPosition) : d.Types (d.insertAll tracker texts position) := by
  unfold insertAll
  split
  · exact ⟨.refl, fun _ => ⟨(), rfl⟩⟩
  · exact types_editEach tracker (fun _ _ d => d.types_insertText _ _) d _

theorem types_eraseAll (d : Document) (tracker : Nat) : d.Types (d.eraseAll tracker) :=
  types_editEach tracker (fun _ s d => d.types_erase s.start s.stop) d _

theorem types_eraseBeforeAll (d : Document) (tracker : Nat) :
    d.Types (d.eraseBeforeAll tracker) := by
  refine types_editEach tracker (fun _ s d => ?_) d _
  split
  · exact ⟨.refl, fun _ => ⟨(), rfl⟩⟩
  · exact d.types_erase (prevCoord d.text s.start) s.start

end Document

/-! ## Documents whose history can be replayed -/

/-- **`d.Replayable`** — the document is where a timeline is, or it keeps no history at all. -/
def Document.Replayable (d : Document) : Prop :=
  (∃ t : Timeline, t.Represents d) ∨ d.noUndo = true ∧ d.history = {}

namespace Document

variable {d e e' : Document} {tracker : Nat}

theorem tracked?_congr (h : e.listeners = d.listeners) (tracker : Nat) :
    e.tracked? tracker = d.tracked? tracker := by
  rw [tracked?, tracked?, h]

theorem Replayable.of_eq (h : d.Replayable) (hnoUndo : e.noUndo = d.noUndo)
    (htext : e.text = d.text) (hhistory : e.history = d.history) : e.Replayable := by
  rcases h with ⟨t, ht⟩ | ⟨hsilent, hempty⟩
  · exact .inl ⟨t, ht.of_eq hnoUndo htext hhistory⟩
  · exact .inr ⟨hnoUndo.trans hsilent, hhistory.trans hempty⟩

/-- What undo replays leads back to some text. -/
theorem Replayable.undo_turns {group : List Change} {groups : List (List Change)}
    (h : d.Replayable) (hgroups : d.commit.history.undo = group :: groups) :
    ∃ text, TurnAll (group.map Change.inverse) d.commit.text text := by
  rcases h with ⟨t, ht⟩ | ⟨-, hempty⟩
  · obtain ⟨text, past, -, -, hback, -⟩ := ht.last_group hgroups
    exact ⟨text, hback⟩
  · simp [commit, History.commit, hempty] at hgroups

/-- What redo replays leads on to some text. -/
theorem Replayable.redo_turns {group : List Change} {groups : List (List Change)}
    (h : d.Replayable) (hgroups : d.history.redo = group :: groups) :
    ∃ text, TurnAll group.reverse d.text text := by
  rcases h with ⟨t, ht⟩ | ⟨-, hempty⟩
  · obtain ⟨text, future, -, hon, -⟩ := ht.next_group hgroups
    exact ⟨text, hon⟩
  · simp [hempty] at hgroups

theorem Replayable.edit {change : Change} {after : List Char} (h : d.Replayable)
    (hchange : change.Turns d.text after) : ((d.record change).apply change).2.Replayable := by
  rcases h with ⟨t, ht⟩ | ⟨hsilent, hempty⟩
  · exact .inl ⟨_, ht.edit hchange⟩
  · -- no change is recorded
    refine .inr ?_
    rw [noUndo_apply, history_apply, record, if_pos hsilent]
    exact ⟨hsilent, hempty⟩

theorem Replayable.step {op : Operation} (h : d.Replayable) (hop : op.IsEdit) :
    (d.perform op).2.Replayable := by
  rcases h with ⟨t, ht⟩ | ⟨hsilent, hempty⟩
  · exact .inl ⟨_, (ht.perform op).2⟩
  · have hcommit : d.commit.history = {} := by
      rw [commit, History.commit, hempty]
      rfl
    have hstep := d.editStep_perform hop
    generalize d.perform op = done at hstep
    -- there is no group to replay
    cases hstep with
    | nothing => exact .inr ⟨hsilent, hempty⟩
    | commit => exact .inr ⟨hsilent, hcommit⟩
    | change hchange => exact Replayable.edit (.inr ⟨hsilent, hempty⟩) hchange
    | undo hgroups => simp [hcommit] at hgroups
    | redo hgroups => simp [hempty] at hgroups

/-! ## Edits as evolutions -/

theorem evolves_edit {change : Change} {after : List Char} (h : change.Turns d.text after) :
    d.Evolves tracker [eventOf d.text change] ((d.record change).apply change).2 := by
  have hrecord : d.Evolves tracker [] (d.record change) :=
    .of_aside (text_record d change) (tracked?_congr (listeners_record d change) tracker)
  rw [← text_record d change] at h ⊢
  exact hrecord.change h

theorem evolves_replay (tracker : Nat) {changes : List Change} {after : List Char}
    (h : TurnAll changes d.text after) :
    ∃ events, d.Evolves tracker events (d.replay changes).2 := by
  generalize hbefore : d.text = before at h
  induction h generalizing d with
  | nil => exact ⟨[], .refl⟩
  | cons hchange _ ih =>
    subst hbefore
    obtain ⟨events, hrest⟩ := ih (d := (d.apply _).2) (by rw [text_apply, hchange.applyTo_eq])
    exact ⟨_, (Evolves.refl.change hchange).trans hrest⟩

theorem EditStep.evolves {done : Except SelectionError Bool × Document} (h : d.EditStep done)
    (hd : d.Replayable) (tracker : Nat) : ∃ events, d.Evolves tracker events done.2 := by
  cases h with
  | nothing => exact ⟨[], .refl⟩
  | commit => exact ⟨[], .of_aside rfl rfl⟩
  | change hchange => exact ⟨_, evolves_edit hchange⟩
  | undo hgroups =>
    -- closing the pending group is a step aside, and so is moving the group that was undone
    have hcommit : d.Evolves tracker [] d.commit := .of_aside rfl rfl
    obtain ⟨text, hback⟩ := hd.undo_turns hgroups
    obtain ⟨events, hreplay⟩ := evolves_replay tracker hback
    exact ⟨_, (hcommit.trans hreplay).aside rfl rfl⟩
  | redo hgroups =>
    obtain ⟨text, hon⟩ := hd.redo_turns hgroups
    obtain ⟨events, hreplay⟩ := evolves_replay tracker hon
    exact ⟨_, hreplay.aside rfl rfl⟩

theorem nextListener_edit (change : Change) :
    ((d.record change).apply change).2.nextListener = d.nextListener := by
  rw [nextListener_apply, record]
  split <;> rfl

theorem nextListener_replay (changes : List Change) :
    (d.replay changes).2.nextListener = d.nextListener := by
  induction changes generalizing d with
  | nil => rfl
  | cons change changes ih => rw [replay_cons, ih, nextListener_apply]

theorem EditStep.nextListener_eq {done : Except SelectionError Bool × Document}
    (h : d.EditStep done) : done.2.nextListener = d.nextListener := by
  cases h with
  | nothing | commit => rfl
  | change _ => exact nextListener_edit _
  | undo _ => exact nextListener_replay (d := d.commit) _
  | redo _ => exact nextListener_replay _

theorem EditStep.noUndo_eq {done : Except SelectionError Bool × Document}
    (h : d.EditStep done) : done.2.noUndo = d.noUndo := by
  cases h with
  | nothing | commit => rfl
  | change _ => exact noUndo_record d _
  | undo _ => exact noUndo_replay d.commit _
  | redo _ => exact noUndo_replay d _

/-! ## What is left of a tracker -/

/-- **`d.Leaves tracker alone e`** — from `d` to `e`, the tracker was not dropped, and if it was
left `alone` it has only heard of changes. -/
structure Leaves (tracker : Nat) (alone : Prop) (d e : Document) : Prop where
  counted : d.nextListener ≤ e.nextListener
  replayable : e.Replayable
  held : (d.tracked? tracker).isSome → (e.tracked? tracker).isSome
  evolves : alone → ∃ events, d.Evolves tracker events e

namespace Leaves

variable {alone alone' : Prop}

theorem of_evolves {events : List Event} (hcounted : d.nextListener ≤ e.nextListener)
    (hreplayable : e.Replayable) (hevolves : d.Evolves tracker events e) :
    d.Leaves tracker alone e where
  counted := hcounted
  replayable := hreplayable
  held h := by
    obtain ⟨l, hl⟩ := Option.isSome_iff_exists.mp h
    rw [hevolves.tracked hl]
    rfl
  evolves _ := ⟨events, hevolves⟩

theorem refl (h : d.Replayable) : d.Leaves tracker alone d := of_evolves le_rfl h .refl

theorem trans (h : d.Leaves tracker alone e) (h' : e.Leaves tracker alone e') :
    d.Leaves tracker alone e' where
  counted := le_trans h.counted h'.counted
  replayable := h'.replayable
  held hd := h'.held (h.held hd)
  evolves halone := by
    obtain ⟨events, hevents⟩ := h.evolves halone
    obtain ⟨later, hlater⟩ := h'.evolves halone
    exact ⟨events ++ later, hevents.trans hlater⟩

/-- Who leaves the tracker alone in any case does so under any condition. -/
theorem of_alone (h : d.Leaves tracker alone e) (halone : alone) :
    d.Leaves tracker alone' e where
  counted := h.counted
  replayable := h.replayable
  held := h.held
  evolves _ := h.evolves halone

/-- A step aside: the text, the history and the tracker stay as they are. -/
theorem of_aside (h : d.Replayable) (hcounted : d.nextListener ≤ e.nextListener)
    (hnoUndo : e.noUndo = d.noUndo) (htext : e.text = d.text) (hhistory : e.history = d.history)
    (htracked : e.tracked? tracker = d.tracked? tracker) : d.Leaves tracker alone e :=
  of_evolves hcounted (h.of_eq hnoUndo htext hhistory) (.of_aside htext htracked)

end Leaves

theorem leaves_perform {alone : Prop} (hd : d.Replayable) (op : Operation) (hop : op.IsEdit) :
    d.Leaves tracker alone (d.perform op).2 := by
  have hstep := d.editStep_perform hop
  obtain ⟨events, hevents⟩ := hstep.evolves hd tracker
  exact .of_evolves hstep.nextListener_eq.ge (hd.step hop) hevents

theorem Typed.leaves {alone : Prop} (h : d.Typed e) (hd : d.Replayable) :
    d.Leaves tracker alone e := by
  induction h with
  | refl => exact .refl hd
  | step _ hchange ih =>
    exact ih.trans (.of_evolves (nextListener_edit _).ge (ih.replayable.edit hchange)
      (evolves_edit hchange))

theorem leaves_subscribe {alone : Prop} (hd : d.Replayable) (h : tracker < d.nextListener)
    (role : ListenerRole) : d.Leaves tracker alone (d.subscribe role).2 :=
  .of_aside hd (Nat.le_succ _) rfl rfl rfl (tracked?_subscribe h.ne role)

theorem tracked?_unsubscribe {other : Nat} (hne : tracker ≠ other) :
    (d.unsubscribe other).tracked? tracker = d.tracked? tracker := by
  have hpasses : (fun l : Listener =>
      decide (decide (l.id ≠ other) = true ∧ decide (l.id = tracker) = true)) =
      fun l => decide (l.id = tracker) := by
    funext l
    by_cases hl : l.id = tracker
    · simp [hl, hne]
    · simp [hl]
  rw [tracked?, tracked?, unsubscribe, List.find?_filter, hpasses]

theorem leaves_unsubscribe {alone : Prop} {other : Nat} (hd : d.Replayable)
    (hne : tracker ≠ other) : d.Leaves tracker alone (d.unsubscribe other) :=
  .of_aside hd le_rfl rfl rfl rfl (tracked?_unsubscribe hne)

/-- Giving a tracker other selections leaves it there, and the other trackers alone. -/
theorem leaves_giving {alone : Prop} {other : Nat} (hd : d.Replayable)
    (halone : alone → tracker ≠ other) (l : SelectionList) :
    d.Leaves tracker alone (d.giving other l) where
  counted := le_rfl
  replayable := hd.of_eq rfl rfl rfl
  held h := by
    by_cases hother : tracker = other
    · subst hother
      rw [tracked?_giving h]
      rfl
    · rwa [tracked?_giving_of_ne hother]
  evolves h := ⟨[], .of_aside rfl (tracked?_giving_of_ne (halone h) l)⟩

end Document

end ModalEdit
