import ModalEdit.Proofs.DocumentRun

/-!
# Edits that are not recorded

A document can be told at any moment to keep no history, and to keep one again. What is edited in
between is neither recorded nor does it drop what is recorded, so undo and redo go on to replay
changes whose offsets were those of another text.

A document is `Retraceable` when its history still fits its text: all that undo could take back, one
step after the other, and all that redo could make again. Recorded edits, commits, undo and redo
keep that. An edit that is not recorded keeps it if it lies at or behind the `reach` of the history,
which is how far into the text its changes go, by their offsets and lengths alone. So if all
unrecorded edits lie there, every replay fits (`replays_fit`); if one does not, undo can remove text
that nobody ever inserted with it (`undo_removes_unrecorded_text`).
-/

namespace ModalEdit

open Text

/-! ## How far changes reach -/

namespace Change

/-- Where a change begins. -/
def offset : Change → Nat
  | .insert offset _ => offset
  | .erase offset _ => offset

/-- How much of a text there must be for a change to fit, after which `later` bytes are needed. -/
def need (change : Change) (later : Nat) : Nat :=
  match change with
  | .insert offset added => max offset (later - byteLength added)
  | .erase offset removed => max offset later + byteLength removed

/-- How far into a text the changes go that are made in it one after the other. -/
def reach (changes : List Change) : Nat := changes.foldr need 0

end Change

theorem append_cut {a b x y : List Char} (h : a ++ b = x ++ y) (hle : byteLength a ≤ byteLength x) :
    ∃ z, x = a ++ z ∧ b = z ++ y := by
  rcases cut_cases h with ⟨z, hz, rfl, rfl⟩ | hcut
  · have := byteLength_pos hz
    rw [byteLength_append] at hle
    omega
  · exact hcut

theorem Change.inverse_inverse (change : Change) : change.inverse.inverse = change := by
  cases change <;> rfl

/-- A change leaves the text before it as it is. -/
theorem Change.Turns.cut {change : Change} {before after : List Char}
    (h : change.Turns before after) :
    ∃ a b b', before = a ++ b ∧ after = a ++ b' ∧ byteLength a = change.offset := by
  cases h with
  | insert a added b => exact ⟨a, b, added ++ b, rfl, List.append_assoc _ _ _, rfl⟩
  | erase a removed b => exact ⟨a, removed ++ b, b, List.append_assoc _ _ _, rfl, rfl⟩

namespace TurnAll

variable {changes later : List Change} {before after a b : List Char}

theorem split (h : TurnAll (changes ++ later) before after) :
    ∃ between, TurnAll changes before between ∧ TurnAll later between after := by
  induction changes generalizing before with
  | nil => exact ⟨before, .nil before, h⟩
  | cons change changes ih =>
    cases h with
    | cons hchange hrest =>
      obtain ⟨between, hfirst, hlater⟩ := ih hrest
      exact ⟨between, .cons hchange hfirst, hlater⟩

/-- Changes that take a group back show that the group leads forward. -/
theorem of_inverse {group : List Change} (h : TurnAll (group.map Change.inverse) after before) :
    TurnAll group.reverse before after := by
  have hforward := h.inverse
  have hid : Change.inverse ∘ Change.inverse = id := funext Change.inverse_inverse
  rwa [← List.map_reverse, List.map_map, hid, List.map_id] at hforward

/-- Changes do not depend on the text behind their reach. -/
theorem behind (h : TurnAll changes (a ++ b) after) (hreach : Change.reach changes ≤ byteLength a)
    (b' : List Char) : ∃ after', TurnAll changes (a ++ b') after' := by
  induction changes generalizing a with
  | nil => exact ⟨a ++ b', .nil _⟩
  | cons change changes ih =>
    generalize hbefore : a ++ b = before at h
    cases h with
    | cons hchange hrest =>
      cases hchange with
      | insert x added y =>
        have hneed : max (byteLength x) (Change.reach changes - byteLength added) ≤
          byteLength a := hreach
        obtain ⟨z, rfl, rfl⟩ := append_cut hbefore.symm (by omega)
        -- the later changes go no further than what precedes `b` by then
        rw [← List.append_assoc] at hrest
        have hlater : Change.reach changes ≤ byteLength (x ++ added ++ z) := by
          simp only [byteLength_append] at hneed ⊢
          omega
        obtain ⟨after', hafter⟩ := ih hrest hlater
        refine ⟨after', .cons ?_ hafter⟩
        have hinsert := Change.Turns.insert x added (z ++ b')
        rwa [← List.append_assoc, ← List.append_assoc] at hinsert
      | erase x removed y =>
        have hneed : max (byteLength x) (Change.reach changes) + byteLength removed ≤
          byteLength a := hreach
        obtain ⟨z, rfl, rfl⟩ := append_cut hbefore.symm (by rw [byteLength_append]; omega)
        rw [← List.append_assoc] at hrest
        have hlater : Change.reach changes ≤ byteLength (x ++ z) := by
          simp only [byteLength_append] at hneed ⊢
          omega
        obtain ⟨after', hafter⟩ := ih hrest hlater
        refine ⟨after', .cons ?_ hafter⟩
        have herase := Change.Turns.erase x removed (z ++ b')
        rwa [← List.append_assoc, ← List.append_assoc] at herase

end TurnAll

/-! ## Histories that fit -/

namespace History

/-- All changes that undo would make, if it were pressed until nothing is left. -/
def back (h : History) : List Change := (h.pending ++ h.undo.flatten).map Change.inverse

/-- All changes that redo would make. -/
def forth (h : History) : List Change := (h.redo.map List.reverse).flatten

/-- How far into the text the history goes. -/
def reach (h : History) : Nat := max (Change.reach h.back) (Change.reach h.forth)

@[simp] theorem back_commit (h : History) : h.commit.back = h.back := by
  unfold commit
  split
  · rfl
  · simp [back]

@[simp] theorem forth_commit (h : History) : h.commit.forth = h.forth := by
  unfold commit
  split <;> rfl

end History

namespace Document

/-- **`d.Retraceable`** — all steps that can be undone fit the text one after the other, and so do
all that can be made again; there is never both a pending step and something to make again. -/
structure Retraceable (d : Document) : Prop where
  back : ∃ text, TurnAll d.history.back d.text text
  forth : ∃ text, TurnAll d.history.forth d.text text
  exclusive : d.history.pending = [] ∨ d.history.redo = []

variable {d e : Document}

namespace Retraceable

theorem of_no_history (h : d.history = {}) : d.Retraceable := by
  refine ⟨⟨d.text, ?_⟩, ⟨d.text, ?_⟩, .inl ?_⟩
  · rw [h]
    exact .nil d.text
  · rw [h]
    exact .nil d.text
  · rw [h]

theorem of_eq (h : d.Retraceable) (htext : e.text = d.text) (hhistory : e.history = d.history) :
    e.Retraceable := by
  refine ⟨?_, ?_, ?_⟩
  · rw [htext, hhistory]
    exact h.back
  · rw [htext, hhistory]
    exact h.forth
  · rw [hhistory]
    exact h.exclusive

theorem commit (h : d.Retraceable) : d.commit.Retraceable := by
  refine ⟨?_, ?_, .inl d.pending_commit⟩
  · show ∃ text, TurnAll d.history.commit.back d.text text
    rw [History.back_commit]
    exact h.back
  · show ∃ text, TurnAll d.history.commit.forth d.text text
    rw [History.forth_commit]
    exact h.forth

/-- The group that undo takes back fits, and the others fit what it leaves. -/
theorem last_group {group : List Change} {groups : List (List Change)} (h : d.Retraceable)
    (hgroups : d.commit.history.undo = group :: groups) :
    ∃ text, TurnAll (group.map Change.inverse) d.text text ∧
      ∃ start, TurnAll (groups.flatten.map Change.inverse) text start := by
  obtain ⟨start, hback⟩ := h.commit.back
  have hall : d.commit.history.back =
      group.map Change.inverse ++ groups.flatten.map Change.inverse := by
    rw [History.back, hgroups, d.pending_commit]
    simp
  rw [hall] at hback
  obtain ⟨text, hgroup, hrest⟩ := hback.split
  exact ⟨text, hgroup, start, hrest⟩

/-- The group that redo makes again fits, and the others fit what it leaves. -/
theorem next_group {group : List Change} {groups : List (List Change)} (h : d.Retraceable)
    (hgroups : d.history.redo = group :: groups) :
    ∃ text, TurnAll group.reverse d.text text ∧
      ∃ stop, TurnAll (groups.map List.reverse).flatten text stop := by
  obtain ⟨stop, hforth⟩ := h.forth
  rw [History.forth, hgroups, List.map_cons, List.flatten_cons] at hforth
  obtain ⟨text, hgroup, hrest⟩ := hforth.split
  exact ⟨text, hgroup, stop, hrest⟩

theorem undo (h : d.Retraceable) : d.undo.2.Retraceable := by
  cases hgroups : d.commit.history.undo with
  | nil =>
    rw [undo_of_nil hgroups]
    exact h.commit
  | cons group groups =>
    obtain ⟨text, hgroup, start, hrest⟩ := h.last_group hgroups
    obtain ⟨stop, hforth⟩ := h.commit.forth
    have htext : (d.commit.replay (group.map Change.inverse)).2.text = text := text_replay hgroup
    have hpending : d.commit.history.pending = [] := d.pending_commit
    rw [undo_of_cons hgroups, hpending]
    refine ⟨⟨start, ?_⟩, ⟨stop, ?_⟩, .inl rfl⟩
    · exact htext ▸ hrest
    · exact htext ▸ hgroup.of_inverse.append hforth

theorem redo (h : d.Retraceable) : d.redo.2.Retraceable := by
  cases hgroups : d.history.redo with
  | nil =>
    rw [redo_of_nil hgroups]
    exact h
  | cons group groups =>
    obtain ⟨text, hgroup, stop, hrest⟩ := h.next_group hgroups
    obtain ⟨start, hback⟩ := h.back
    have htext : (d.replay group.reverse).2.text = text := text_replay hgroup
    -- where there is something to make again there is no pending group
    have hpending : d.history.pending = [] := h.exclusive.resolve_right (by simp [hgroups])
    have hgroupback : TurnAll (group.map Change.inverse) text d.text := by
      simpa using hgroup.inverse
    rw [History.back, hpending] at hback
    rw [redo_of_cons hgroups, hpending]
    refine ⟨⟨start, ?_⟩, ⟨stop, ?_⟩, .inl rfl⟩
    · have hlonger := hgroupback.append hback
      rw [← List.map_append] at hlonger
      exact htext ▸ hlonger
    · exact htext ▸ hrest

/-- A change that is recorded becomes the first one to be taken back. -/
theorem recorded {change : Change} {after : List Char} (h : d.Retraceable)
    (hrecording : d.noUndo = false) (hchange : change.Turns d.text after) :
    ((d.record change).apply change).2.Retraceable := by
  obtain ⟨start, hback⟩ := h.back
  have hrecord : d.record change = { d with history := d.history.record change } := by
    rw [record, if_neg (by simp [hrecording])]
  rw [hrecord]
  refine ⟨⟨start, ?_⟩, ⟨after, ?_⟩, .inr rfl⟩
  · rw [text_apply, hchange.applyTo_eq]
    exact .cons hchange.inverse hback
  · rw [text_apply, hchange.applyTo_eq]
    exact .nil after

/-- A change that is not recorded leaves the history fitting if it lies behind its reach. -/
theorem unrecorded {change : Change} {after : List Char} (h : d.Retraceable)
    (hsilent : d.noUndo = true) (hchange : change.Turns d.text after)
    (hreach : d.history.reach ≤ change.offset) :
    ((d.record change).apply change).2.Retraceable := by
  obtain ⟨a, b, b', hbefore, hafter, hoffset⟩ := hchange.cut
  obtain ⟨start, hback⟩ := h.back
  obtain ⟨stop, hforth⟩ := h.forth
  rw [hbefore] at hback hforth
  rw [← hoffset, History.reach] at hreach
  have hrecord : d.record change = d := by rw [record, if_pos hsilent]
  rw [hrecord]
  refine ⟨?_, ?_, h.exclusive⟩
  · rw [text_apply, hchange.applyTo_eq, hafter]
    exact hback.behind ((Nat.max_le.mp hreach).1) b'
  · rw [text_apply, hchange.applyTo_eq, hafter]
    exact hforth.behind ((Nat.max_le.mp hreach).2) b'

end Retraceable

/-! ## One request -/

/-- One thing that is asked of a document. -/
inductive Request where
  | perform (op : Operation)
  /-- From now on changes are recorded, or they are not. -/
  | record (on : Bool)

/-- Does what is asked. -/
def serve (d : Document) : Request → Document
  | .perform op => (d.perform op).2
  | .record on => { d with noUndo := !on }

/-- **`r.Spares d`** — if the request makes a change of `d` that is not recorded, it makes it at or
behind the reach of the history. -/
def Request.Spares (d : Document) : Request → Prop
  | .perform (.insert place _) =>
    d.noUndo = true → d.history.reach ≤ offset d.text place
  | .perform (.erase start stop) =>
    d.noUndo = true → offset d.text start < offset d.text stop →
      d.history.reach ≤ offset d.text start
  | _ => True

theorem Retraceable.change {change : Change} {after : List Char} (h : d.Retraceable)
    (hchange : change.Turns d.text after)
    (hspares : d.noUndo = true → d.history.reach ≤ change.offset) :
    ((d.record change).apply change).2.Retraceable := by
  cases hrecording : d.noUndo with
  | false => exact h.recorded hrecording hchange
  | true => exact h.unrecorded hrecording hchange (hspares hrecording)

/-- **One step** — every request that spares the history keeps it fitting. -/
theorem Retraceable.serve {r : Request} (h : d.Retraceable) (hr : r.Spares d) :
    (d.serve r).Retraceable := by
  cases r with
  | record on => exact h.of_eq rfl rfl
  | perform op =>
    cases op with
    | insert place added => exact h.change (d.insertion_turns place added) hr
    | erase start stop =>
      show (d.erase start stop).2.Retraceable
      rcases Nat.lt_or_ge (offset d.text start) (offset d.text stop) with hlt | hle
      · rw [erase_snd hlt]
        exact h.change (erasure_turns hlt) fun hsilent => hr hsilent hlt
      · rw [d.erase_of_le start stop hle]
        exact h
    | commit => exact h.commit
    | undo => exact h.undo
    | redo => exact h.redo
    | listen role => exact h.of_eq rfl rfl
    | copy tracker =>
      rw [Document.serve, Document.perform]
      split
      · exact h.of_eq rfl rfl
      · exact h
    | assign tracker selections =>
      rw [Document.serve, Document.perform, Document.assign]
      cases (selections.mapCoords (clamp d.text)).validate with
      | ok _ => exact h.of_eq rfl rfl
      | error e => exact h
    | leave listener => exact h.of_eq rfl rfl

/-! ## Whole runs -/

/-- Does what is asked, in order. -/
def serveAll (d : Document) (requests : List Request) : Document := requests.foldl serve d

/-- **`d.AllSpare requests`** — each request spares the history that the earlier ones have left. -/
def AllSpare (d : Document) : List Request → Prop
  | [] => True
  | r :: requests => r.Spares d ∧ (d.serve r).AllSpare requests

/-- **A whole run** — by induction on the requests, each step being `Retraceable.serve`. -/
theorem Retraceable.serveAll {requests : List Request} (h : d.Retraceable)
    (hspare : d.AllSpare requests) : (d.serveAll requests).Retraceable := by
  induction requests generalizing d with
  | nil => exact h
  | cons r requests ih => exact ih (h.serve hspare.1) hspare.2

/-- **Every replay fits** — after every run of requests, among which recording is switched off and
on at any moments, if the changes made in between lie at or behind the reach of the history: when
undo takes a group back, or redo makes one again, each change of the group fits the text that it is
made in. Its offset lies in that text on a character boundary, and what it removes is the text that
the change names. -/
theorem replays_fit (d : Document) (requests : List Request) (hnew : d.history = {})
    (hspare : d.AllSpare requests) :
    let e := d.serveAll requests
    (∀ group groups, e.commit.history.undo = group :: groups →
      TurnAll (group.map Change.inverse) e.text e.undo.2.text) ∧
    ∀ group groups, e.history.redo = group :: groups →
      TurnAll group.reverse e.text e.redo.2.text := by
  intro e
  have h : e.Retraceable := (Retraceable.of_no_history hnew).serveAll hspare
  constructor
  · intro group groups hgroups
    obtain ⟨text, hgroup, -⟩ := h.last_group hgroups
    have htext : e.undo.2.text = text := by
      rw [undo_of_cons hgroups]
      exact text_replay (d := e.commit) hgroup
    rwa [htext]
  · intro group groups hgroups
    obtain ⟨text, hgroup, -⟩ := h.next_group hgroups
    have htext : e.redo.2.text = text := by
      rw [redo_of_cons hgroups]
      exact text_replay hgroup
    rwa [htext]

/-- `abc` is recorded; `xyz` is written behind it with no recording. -/
theorem replays_fit_behind_unrecorded :
    let e := (ofText "notes" "").serveAll
      [.perform (.insert .origin ['a', 'b', 'c']), .perform .commit, .record false,
        .perform (.insert ⟨0, 3⟩ ['x', 'y', 'z']), .record true]
    e.commit.history.undo = [[.insert 0 ['a', 'b', 'c']]] ∧ e.undo.2.text = ['x', 'y', 'z'] ∧
      TurnAll [.erase 0 ['a', 'b', 'c']] e.text e.undo.2.text := by
  intro e
  have hgroup : e.commit.history.undo = [[.insert 0 ['a', 'b', 'c']]] := by decide
  have htext : e.undo.2.text = ['x', 'y', 'z'] := by decide
  have hspare : (ofText "notes" "").AllSpare
      [.perform (.insert .origin ['a', 'b', 'c']), .perform .commit, .record false,
        .perform (.insert ⟨0, 3⟩ ['x', 'y', 'z']), .record true] :=
    ⟨fun h => absurd h (by decide), trivial, trivial, fun _ => by decide, trivial, trivial⟩
  exact ⟨hgroup, htext, (replays_fit (ofText "notes" "") _ rfl hspare).1 _ _ hgroup⟩

/-- With `xyz` written before `abc`, undo is to take back `abc` and removes `xyz`. -/
theorem undo_removes_unrecorded_text :
    let e := (ofText "notes" "").serveAll
      [.perform (.insert .origin ['a', 'b', 'c']), .perform .commit, .record false,
        .perform (.insert .origin ['x', 'y', 'z']), .record true]
    e.commit.history.undo = [[.insert 0 ['a', 'b', 'c']]] ∧
      e.text = ['x', 'y', 'z', 'a', 'b', 'c'] ∧ e.undo.2.text = ['a', 'b', 'c'] ∧
      ¬ TurnAll [.erase 0 ['a', 'b', 'c']] e.text e.undo.2.text := by
  intro e
  refine ⟨by decide, by decide, by decide, fun h => ?_⟩
  -- put back at the start of what undo has left, `abc` does not give the text again
  cases h with
  | cons hchange hrest =>
    cases hrest
    exact absurd hchange.inverse.applyTo_eq (by decide)

end Document

end ModalEdit
