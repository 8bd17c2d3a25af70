import ModalEdit.Proofs.NormalForm
import ModalEdit.Proofs.UndoTimeline

/-!
# Trackers stay valid

A tracker fits a text when its list is well formed and both ends of each of its selections are
positions of that text. A change that fits the text carries a tracker that fits to one that fits the
text after it (`ListenerRole.Fits.hear`); since the history only ever replays changes that fit, this
goes through undo and redo as well, and so through every run (`trackers_stay_valid`).
-/

namespace ModalEdit

open Text

theorem SelectionList.Within.map_clamp {l : SelectionList} {text : List Char} {s : Selection}
    (h : l.Within (IsPosition text)) (hs : s ∈ l.selections) : s.map (clamp text) = s := by
  obtain ⟨hanchor, hcursor⟩ := h s hs
  rw [Selection.map, hanchor, hcursor]

/-- **`role.Fits text`** — a tracker's list is well formed and in the text; an observer does not
fail from now on. -/
def ListenerRole.Fits (text : List Char) : ListenerRole → Prop
  | .tracker selections => selections.WellFormed ∧ selections.Within (IsPosition text)
  | .reacting observer => observer.Obliging

/-- **The step** — a change that fits the text keeps each listener fitting, and none fails. -/
theorem ListenerRole.Fits.hear {l : Listener} {change : Change} {before after : List Char}
    (h : l.role.Fits before) (hchange : change.Turns before after) :
    (l.hear (Document.eventOf before change)).2.failure = none ∧
      (l.hear (Document.eventOf before change)).1.role.Fits after := by
  obtain ⟨id, role⟩ := l
  cases role with
  | tracker selections =>
    obtain ⟨hwell, hwithin⟩ := h
    have hmoved : (selections.carry (Document.eventOf before change)).WellFormed :=
      SelectionList.mapCoords_wellFormed _ hwell.main_lt
    refine ⟨?_, hmoved, hwithin.mapCoords fun c hc => hchange.isPosition_carry hc⟩
    simp only [Listener.hear, SelectionList.validate_eq_ok_iff.mpr hmoved]
  | reacting observer => exact Observer.Obliging.hear h _

namespace Document

/-- **`d.Fits`** — every listener fits the text. -/
def Fits (d : Document) : Prop := ∀ l ∈ d.listeners, l.role.Fits d.text

variable {d : Document}

theorem Fits.apply {change : Change} {after : List Char} (h : d.Fits)
    (hchange : change.Turns d.text after) :
    (d.apply change).1 = none ∧ (d.apply change).2.Fits := by
  constructor
  · rw [failure_apply, List.findSome?_eq_none_iff]
    intro l hl
    exact ((h l hl).hear hchange).1
  · intro l hl
    rw [listeners_apply, List.mem_filter, List.mem_map] at hl
    obtain ⟨⟨told, htold, rfl⟩, -⟩ := hl
    rw [text_apply, hchange.applyTo_eq]
    exact ((h told htold).hear hchange).2

theorem Fits.edit {change : Change} {after : List Char} (h : d.Fits)
    (hchange : change.Turns d.text after) :
    ((d.record change).apply change).1 = none ∧ ((d.record change).apply change).2.Fits := by
  -- recording a change touches neither the text nor the listeners
  have hrecord : (d.record change).Fits := by
    unfold Fits
    rw [listeners_record, text_record]
    exact h
  rw [← text_record d change] at hchange
  exact hrecord.apply hchange

theorem Fits.replay {changes : List Change} {after : List Char} (h : d.Fits)
    (hchanges : TurnAll changes d.text after) :
    (d.replay changes).1 = none ∧ (d.replay changes).2.Fits := by
  generalize hbefore : d.text = before at hchanges
  induction hchanges generalizing d with
  | nil => exact ⟨rfl, h⟩
  | cons hchange _ ih =>
    subst hbefore
    obtain ⟨hfailure, hfits⟩ := h.apply hchange
    obtain ⟨hlater, hrest⟩ := ih hfits (by rw [text_apply, hchange.applyTo_eq])
    rw [replay_cons, hfailure, hlater]
    exact ⟨rfl, hrest⟩

theorem Fits.tracked {tracker : Nat} {selections : SelectionList} (h : d.Fits)
    (htracked : d.tracked? tracker = some selections) :
    (ListenerRole.tracker selections).Fits d.text := by
  obtain ⟨l, hl, hsome⟩ := Option.bind_eq_some_iff.mp htracked
  have hfits := h l (List.mem_of_find?_eq_some hl)
  unfold Listener.selections? at hsome
  split at hsome
  next role hrole =>
    rw [hrole] at hfits
    rwa [← Option.some.inj hsome]
  next => simp at hsome

theorem Fits.subscribe {role : ListenerRole} (h : d.Fits) (hrole : role.Fits d.text) :
    (d.subscribe role).2.Fits := by
  intro l hl
  rcases List.mem_append.mp hl with hl | hl
  · exact h l hl
  · rw [List.mem_singleton.mp hl]
    exact hrole

theorem within_clamped (text : List Char) (selections : SelectionList) :
    (selections.mapCoords (clamp text)).Within (IsPosition text) :=
  SelectionList.Within.mapCoords (P := fun _ => True) (fun _ _ => ⟨trivial, trivial⟩)
    fun c _ => isPosition_clamp text c

/-- A list with a main selection fits once its coordinates are clamped. -/
theorem fits_clamped {selections : SelectionList} (text : List Char)
    (h : selections.mainIndex < selections.length) :
    (ListenerRole.tracker (selections.mapCoords (clamp text))).Fits text :=
  ⟨SelectionList.mapCoords_wellFormed _ h, within_clamped text selections⟩

theorem Fits.assign {selections : SelectionList} (h : d.Fits) (tracker : Nat)
    (hmain : selections.mainIndex < selections.length) :
    ∃ after, d.assign tracker selections = .ok after ∧ after.Fits := by
  have hclamped := fits_clamped d.text hmain
  rw [Document.assign, SelectionList.validate_eq_ok_iff.mpr hclamped.1]
  refine ⟨_, rfl, fun l hl => ?_⟩
  obtain ⟨old, hold, rfl⟩ := List.mem_map.mp hl
  dsimp only
  split
  · exact hclamped
  · exact h old hold

theorem fits_default (text : List Char) : (ListenerRole.tracker default).Fits text := by
  refine ⟨SelectionList.single_wellFormed _, fun s hs => ?_⟩
  rw [List.mem_singleton.mp hs]
  exact ⟨isPosition_origin text, isPosition_origin text⟩

/-! ## One operation -/

/-- **`op.IsAdmissible d`** — a listener that is added to `d` fits its text, and a list that is
given to a tracker has a main selection; its coordinates may lie anywhere. -/
def Operation.IsAdmissible (d : Document) : Operation → Prop
  | .listen role => role.Fits d.text
  | .assign _ selections => selections.mainIndex < selections.length
  | _ => True

/-- No step of an edit fails, and each keeps every listener fitting: what undo and redo replay fits
as well. -/
theorem Fits.edit_step {t : Timeline} {done : Except SelectionError Bool × Document} (h : d.Fits)
    (ht : t.Represents d) (hstep : d.EditStep done) :
    (∃ did, done.1 = .ok did) ∧ done.2.Fits := by
  cases hstep with
  | nothing did => exact ⟨⟨did, rfl⟩, h⟩
  | commit did => exact ⟨⟨did, rfl⟩, h⟩
  | change hchange =>
    obtain ⟨hfailure, hfits⟩ := h.edit hchange
    rw [hfailure]
    exact ⟨⟨true, rfl⟩, hfits⟩
  | undo hgroups =>
    obtain ⟨text, past, -, -, hback, -⟩ := ht.last_group hgroups
    have hcommit : d.commit.Fits := h
    obtain ⟨hfailure, hfits⟩ := hcommit.replay hback
    rw [hfailure]
    exact ⟨⟨true, rfl⟩, hfits⟩
  | redo hgroups =>
    obtain ⟨text, future, -, hgroup, -⟩ := ht.next_group hgroups
    obtain ⟨hfailure, hfits⟩ := h.replay hgroup
    rw [hfailure]
    exact ⟨⟨true, rfl⟩, hfits⟩

/-- **One step** — an admissible operation succeeds and keeps every listener fitting. -/
theorem Fits.perform {t : Timeline} {op : Operation} (h : d.Fits) (ht : t.Represents d)
    (hop : op.IsAdmissible d) :
    (∃ did, (d.perform op).1 = .ok did) ∧ (d.perform op).2.Fits := by
  cases op with
  | insert | erase | commit | undo | redo => exact h.edit_step ht (d.editStep_perform trivial)
  | listen role => exact ⟨⟨true, rfl⟩, h.subscribe hop⟩
  | copy tracker =>
    rw [Document.perform]
    split
    next selections htracked => exact ⟨⟨true, rfl⟩, h.subscribe (h.tracked htracked)⟩
    next => exact ⟨⟨true, rfl⟩, h⟩
  | assign tracker selections =>
    obtain ⟨after, hassign, hfits⟩ := h.assign tracker hop
    rw [Document.perform, hassign]
    exact ⟨⟨true, rfl⟩, hfits⟩
  | leave listener => exact ⟨⟨true, rfl⟩, fun l hl => h l (List.mem_filter.mp hl).1⟩

/-! ## Whole runs -/

/-- **`d.Admits ops`** — each of the operations is admissible where the earlier ones have led. -/
def Admits (d : Document) : List Operation → Prop
  | [] => True
  | op :: ops => op.IsAdmissible d ∧ (d.perform op).2.Admits ops

/-- **A whole run** — by induction on the operations, each step being `Fits.perform`. -/
theorem Fits.run {t : Timeline} {ops : List Operation} (h : d.Fits) (ht : t.Represents d)
    (hops : d.Admits ops) :
    (∀ answer ∈ (d.run ops).1, ∃ did, answer = .ok did) ∧ (d.run ops).2.Fits := by
  induction ops generalizing d t with
  | nil => exact ⟨by simp [Document.run], h⟩
  | cons op ops ih =>
    obtain ⟨hanswer, hstep⟩ := h.perform ht hops.1
    obtain ⟨hanswers, hrest⟩ := ih hstep (ht.perform op).2 hops.2
    exact ⟨List.forall_mem_cons.mpr ⟨hanswer, hanswers⟩, hrest⟩

/-- **Trackers stay valid** — from a new document on, after every run of edits, commits, undo and
redo among which trackers come, are copied, are given other selections and leave: every operation
has succeeded, so no check of a tracker failed on the way, and the list of every tracker validates
and has all its ends on positions of the text. -/
theorem trackers_stay_valid (name text : String) (ops : List Operation)
    (hops : (ofText name text).Admits ops) :
    (∀ answer ∈ ((ofText name text).run ops).1, ∃ did, answer = .ok did) ∧
      ∀ tracker selections,
        ((ofText name text).run ops).2.tracked? tracker = some selections →
        selections.validate = .ok () ∧
        ∀ s ∈ selections.selections,
          clamp ((ofText name text).run ops).2.text s.anchor = s.anchor ∧
          clamp ((ofText name text).run ops).2.text s.cursor = s.cursor := by
  have hstart : (ofText name text).Fits := by simp [Fits, ofText]
  obtain ⟨hanswers, hfits⟩ := hstart.run (Timeline.start_represents name text) hops
  refine ⟨hanswers, fun tracker selections htracked => ?_⟩
  obtain ⟨hwell, hwithin⟩ := hfits.tracked htracked
  exact ⟨SelectionList.validate_eq_ok_iff.mpr hwell, hwithin⟩

theorem trackers_stay_valid_through_undo :
    let ops : List Operation :=
      [.listen (.tracker default), .insert ⟨0, 2⟩ ['x', '\n'], .commit,
        .assign 0 ⟨[.point ⟨1, 1⟩, .point ⟨9, 9⟩], 1⟩, .copy 0, .erase ⟨0, 1⟩ ⟨2, 0⟩, .leave 0,
        .undo, .undo, .redo]
    (ofText "notes" "aé\nb").Admits ops ∧
      (∀ answer ∈ ((ofText "notes" "aé\nb").run ops).1, ∃ did, answer = .ok did) ∧
      ∀ tracker selections,
        ((ofText "notes" "aé\nb").run ops).2.tracked? tracker = some selections →
        selections.validate = .ok () ∧
        ∀ s ∈ selections.selections,
          clamp ((ofText "notes" "aé\nb").run ops).2.text s.anchor = s.anchor ∧
          clamp ((ofText "notes" "aé\nb").run ops).2.text s.cursor = s.cursor := by
  intro ops
  have hops : (ofText "notes" "aé\nb").Admits ops :=
    ⟨fits_default _, trivial, trivial, Nat.one_lt_two, trivial, trivial, trivial, trivial, trivial,
      trivial, trivial⟩
  exact ⟨hops, trackers_stay_valid _ _ _ hops⟩

end Document

end ModalEdit
