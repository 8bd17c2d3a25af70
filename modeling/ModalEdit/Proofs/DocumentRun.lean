import ModalEdit.Proofs.EditedPositions

/-!
# Runs of operations on a document

Everything that can be done to a document that records its changes: edits, commits, undo and redo,
and the coming, changing and leaving of listeners. `run` does a list of such operations and keeps
their answers.

Replaying changes that fit leads to the text that they lead to, and touches neither the history nor
what the document records (`text_replay`, `history_replay`). Every edit comes to one of five steps
(`EditStep`), so what is to hold of all edits is checked for these.
-/

namespace ModalEdit.Document

/-! ## Operations -/

/-- One thing that is done to a document. -/
inductive Operation where
  | insert (place : Coord) (added : List Char)
  | erase (start stop : Coord)
  | commit
  | undo
  | redo
  /-- A listener is added. -/
  | listen (role : ListenerRole)
  /-- A tracker is added that starts with the selections of another one. -/
  | copy (tracker : Nat)
  /-- A tracker is given other selections. -/
  | assign (tracker : Nat) (selections : SelectionList)
  /-- A listener is dropped. -/
  | leave (listener : Nat)

/-- Does an operation. The answer is `false` if there was nothing to undo or to redo. -/
def perform (d : Document) : Operation → Except SelectionError Bool × Document
  | .insert place added => ((d.insert place added).1.map fun _ => true, (d.insert place added).2)
  | .erase start stop => ((d.erase start stop).1.map fun _ => true, (d.erase start stop).2)
  | .commit => (.ok true, d.commit)
  | .undo => d.undo
  | .redo => d.redo
  | .listen role => (.ok true, (d.subscribe role).2)
  | .copy tracker =>
    match d.tracked? tracker with
    | some selections => (.ok true, (d.track selections).2)
    | none => (.ok true, d)
  | .assign tracker selections =>
    match d.assign tracker selections with
    | .ok d => (.ok true, d)
    | .error e => (.error e, d)
  | .leave listener => (.ok true, d.unsubscribe listener)

/-- Does operations in order; gives their answers. -/
def run (d : Document) : List Operation → List (Except SelectionError Bool) × Document
  | [] => ([], d)
  | op :: ops => ((d.perform op).1 :: ((d.perform op).2.run ops).1, ((d.perform op).2.run ops).2)

/-- **`op.IsQuiet text`** — in `text`, the operation records nothing, and it is neither undo nor
redo. -/
def Operation.IsQuiet (text : List Char) : Operation → Prop
  | .insert _ _ | .undo | .redo => False
  | .erase start stop => Text.offset text stop ≤ Text.offset text start
  | _ => True

/-! ## Replaying -/

@[simp] theorem replay_nil (d : Document) : d.replay [] = (none, d) := rfl

theorem replay_cons (d : Document) (change : Change) (changes : List Change) :
    d.replay (change :: changes) =
      ((d.apply change).1.or ((d.apply change).2.replay changes).1,
        ((d.apply change).2.replay changes).2) := rfl

theorem text_replay {d : Document} {changes : List Change} {after : List Char}
    (h : TurnAll changes d.text after) : (d.replay changes).2.text = after := by
  generalize hbefore : d.text = before at h
  induction h generalizing d with
  | nil => exact hbefore
  | cons hchange _ ih =>
    rw [replay_cons]
    refine ih ?_
    rw [text_apply, hbefore, hchange.applyTo_eq]

@[simp] theorem history_replay (d : Document) (changes : List Change) :
    (d.replay changes).2.history = d.history := by
  induction changes generalizing d with
  | nil => rfl
  | cons change changes ih => rw [replay_cons, ih, history_apply]

@[simp] theorem noUndo_replay (d : Document) (changes : List Change) :
    (d.replay changes).2.noUndo = d.noUndo := by
  induction changes generalizing d with
  | nil => rfl
  | cons change changes ih => rw [replay_cons, ih, noUndo_apply]

@[simp] theorem scopes_replay (d : Document) (changes : List Change) :
    (d.replay changes).2.scopes = d.scopes := by
  induction changes generalizing d with
  | nil => rfl
  | cons change changes ih =>
    rw [replay_cons, ih]
    rfl

/-! ## Undo and redo, case by case -/

section UndoRedo

variable {d : Document} {group : List Change} {groups : List (List Change)}

theorem pending_commit (d : Document) : d.commit.history.pending = [] := by
  unfold commit History.commit
  split
  next hpending => exact List.isEmpty_iff.mp hpending
  next => rfl

/-- A commit does nothing where nothing is pending. -/
theorem commit_of_none (h : d.history.pending = []) : d.commit = d := by
  rw [commit, History.commit, if_pos (by rw [h]; rfl)]

theorem undo_of_nil (h : d.commit.history.undo = []) : d.undo = (.ok false, d.commit) := by
  simp only [undo, h]

theorem undo_of_cons (h : d.commit.history.undo = group :: groups) :
    d.undo = (unlessFailed (d.commit.replay (group.map Change.inverse)).1 true,
      { (d.commit.replay (group.map Change.inverse)).2 with
        history := ⟨groups, group :: d.commit.history.redo, d.commit.history.pending⟩ }) := by
  simp only [undo, h, history_replay]

theorem redo_of_nil (h : d.history.redo = []) : d.redo = (.ok false, d) := by
  simp only [redo, h]

theorem redo_of_cons (h : d.history.redo = group :: groups) :
    d.redo = (unlessFailed (d.replay group.reverse).1 true,
      { (d.replay group.reverse).2 with
        history := ⟨group :: d.history.undo, groups, d.history.pending⟩ }) := by
  simp only [redo, h, history_replay]

/-- Neither undo nor redo changes the tables of the document. -/
theorem scopes_undo (d : Document) : d.undo.2.scopes = d.scopes := by
  cases hundo : d.commit.history.undo with
  | nil =>
    rw [undo_of_nil hundo]
    rfl
  | cons group groups =>
    rw [undo_of_cons hundo]
    exact scopes_replay _ _

theorem scopes_redo (d : Document) : d.redo.2.scopes = d.scopes := by
  cases hredo : d.history.redo with
  | nil => rw [redo_of_nil hredo]
  | cons group groups =>
    rw [redo_of_cons hredo]
    exact scopes_replay _ _

theorem unlessFailed_true_ne (failure : Option SelectionError) :
    unlessFailed failure true ≠ .ok false := by
  cases failure <;> simp [unlessFailed]

theorem commit_of_nil (h : d.commit.history.undo = []) : d.commit = d := by
  unfold commit History.commit at h ⊢
  split at h
  next hpending => rw [if_pos hpending]
  next => simp at h

/-- Undo that reports that there was nothing to undo changes nothing. -/
theorem undo_of_false (h : d.undo.1 = .ok false) : d.undo.2 = d := by
  cases hundo : d.commit.history.undo with
  | nil => rw [undo_of_nil hundo, commit_of_nil hundo]
  | cons group groups =>
    rw [undo_of_cons hundo] at h
    exact absurd h (unlessFailed_true_ne _)

/-- Redo that reports that there was nothing to redo changes nothing. -/
theorem redo_of_false (h : d.redo.1 = .ok false) : d.redo.2 = d := by
  cases hredo : d.history.redo with
  | nil => rw [redo_of_nil hredo]
  | cons group groups =>
    rw [redo_of_cons hredo] at h
    exact absurd h (unlessFailed_true_ne _)

end UndoRedo

/-! ## What an edit comes to -/

/-- **`op.IsEdit`** — the operation changes text or history, of which listeners only hear. -/
def Operation.IsEdit : Operation → Prop
  | .insert _ _ | .erase _ _ | .commit | .undo | .redo => True
  | _ => False

/-- **`d.EditStep done`** — all that an edit can make of a document, with the answers. -/
inductive EditStep (d : Document) : Except SelectionError Bool × Document → Prop
  | nothing (did : Bool) : EditStep d (.ok did, d)
  | commit (did : Bool) : EditStep d (.ok did, d.commit)
  | change {change : Change} {after : List Char} :
    change.Turns d.text after →
      EditStep d (unlessFailed ((d.record change).apply change).1 true,
        ((d.record change).apply change).2)
  | undo {group : List Change} {groups : List (List Change)} :
    d.commit.history.undo = group :: groups →
      EditStep d (unlessFailed (d.commit.replay (group.map Change.inverse)).1 true,
        { (d.commit.replay (group.map Change.inverse)).2 with
          history := ⟨groups, group :: d.commit.history.redo, d.commit.history.pending⟩ })
  | redo {group : List Change} {groups : List (List Change)} :
    d.history.redo = group :: groups →
      EditStep d (unlessFailed (d.replay group.reverse).1 true,
        { (d.replay group.reverse).2 with
          history := ⟨group :: d.history.undo, groups, d.history.pending⟩ })

theorem map_unlessFailed {α : Type} (failure : Option SelectionError) (value : α) :
    ((unlessFailed failure value).map fun _ => true) = unlessFailed failure true := by
  cases failure <;> rfl

theorem editStep_perform (d : Document) {op : Operation} (hop : op.IsEdit) :
    d.EditStep (d.perform op) := by
  cases op with
  | insert place added =>
    rw [perform, insert_fst, insert_snd, map_unlessFailed]
    exact .change (d.insertion_turns place added)
  | erase start stop =>
    rw [perform]
    rcases Nat.lt_or_ge (Text.offset d.text start) (Text.offset d.text stop) with hlt | hle
    · rw [erase_fst hlt, erase_snd hlt, map_unlessFailed]
      exact .change (erasure_turns hlt)
    · rw [d.erase_of_le start stop hle]
      exact .nothing true
  | commit => exact .commit true
  | undo =>
    rw [perform]
    cases hgroups : d.commit.history.undo with
    | nil =>
      rw [undo_of_nil hgroups]
      exact .commit false
    | cons group groups =>
      rw [undo_of_cons hgroups]
      exact .undo hgroups
  | redo =>
    rw [perform]
    cases hgroups : d.history.redo with
    | nil =>
      rw [redo_of_nil hgroups]
      exact .nothing false
    | cons group groups =>
      rw [redo_of_cons hgroups]
      exact .redo hgroups
  | listen | copy | assign | leave => exact hop.elim

end ModalEdit.Document
