import ModalEdit.Proofs.ClientCustody
import ModalEdit.Proofs.ClientSlots
import ModalEdit.Proofs.DraftEditions
import ModalEdit.Proofs.KeyReplay

/-!
# Editions stay balanced

Insert mode keeps an edition open, and whoever else opens an edition closes it. So whatever is done
in a context, the number of editions that are open besides that of insert mode is the same before
and after, and no edition ends where none is open (`editions_stay_balanced`).

The proof goes along two relations that command lines obey. `Steadies` says what is kept, and holds
of single keys too. `StaysOut` says that a context that is not in insert mode is not in it
afterwards; that holds of command lines, for a replay closes insert mode behind its keys, but not of
single keys. Hooks run command lines, so a key that was found to enter insert mode still enters it
from another mode when its hooks have run.

There is one exception, which the journal tells of: a hook on a key in insert mode can leave insert
mode, and if the key is the one that leaves it, it is left once more. Then an edition is closed that
somebody else has opened (`edition_lost_to_stray_escape`).
-/

namespace ModalEdit

/-- **`c.Balanced outer`** — so many editions are open besides that of insert mode. -/
def Context.Balanced (outer : Nat) (c : Context) : Prop :=
  c.editionLevel = outer + if c.mode = .insert then 1 else 0

theorem Context.balanced_of_insert {c : Context} (h : c.mode = .insert) (outer : Nat) :
    c.Balanced outer ↔ c.editionLevel = outer + 1 := by
  rw [Balanced, if_pos h]

theorem Context.balanced_of_ne {c : Context} (h : c.mode ≠ .insert) (outer : Nat) :
    c.Balanced outer ↔ c.editionLevel = outer := by
  rw [Balanced, if_neg h, Nat.add_zero]

/-- **`e.Balanced`** — the contexts that clients hold are in an edition if they are in insert mode,
and else in none. -/
def Editor.Balanced (e : Editor) : Prop := ∀ c, e.clients.Holds c → c.Balanced 0

namespace Scene

open Act

/-! ## What is kept -/

/-- **`Keeps deeper s t`** — in `t`, so many editions more are open than in `s`, besides that of
insert mode; the contexts of clients have stayed balanced, and no edition has ended where none was
open. -/
structure Keeps (deeper : Nat) (s t : Scene) : Prop where
  context : ∀ outer, s.context.Balanced outer → t.context.Balanced (outer + deeper)
  clients : s.editor.Balanced → t.editor.Balanced
  ends : ∀ outer, s.context.Balanced outer → s.editor.Balanced → .strayEnd ∉ s.since t

/-- **`Steadies deeper s t`** — editions are kept, if insert mode is not left twice. -/
structure Steadies (deeper : Nat) (s t : Scene) : Prop where
  journal : t.editor.journal = s.editor.journal ++ s.since t
  keeps : .strayEscape ∉ s.since t → Keeps deeper s t

/-- **`StaysOut s t`** — a context that is not in insert mode does not end up in it. -/
def StaysOut (s t : Scene) : Prop := s.context.mode ≠ .insert → t.context.mode ≠ .insert

variable {s t u : Scene} {deeper more : Nat}

/-- The end of an edition leaves the input mode alone. -/
theorem mode_ended (t : Scene) : t.checked.ended.context.mode = t.context.mode := by
  rw [context_ended, checked]
  split <;> rfl

/-- The end of an edition that is open. -/
theorem balanced_ended {outer : Nat} (h : t.context.Balanced (outer + 1)) :
    t.checked = t ∧ t.ended.context.Balanced outer := by
  have hlevel : t.context.editionLevel = outer + (if t.context.mode = .insert then 1 else 0) + 1 :=
    h.trans (Nat.add_right_comm outer 1 _)
  constructor
  · exact checked_of_editing (hlevel ▸ Nat.succ_pos _)
  · rw [context_ended]
    exact congrArg (· - 1) hlevel

namespace Steadies

/-- One step, which tells the notes. -/
theorem step (notes : List Happening)
    (hjournal : t.editor.journal = s.editor.journal ++ notes)
    (hcontext : ∀ outer, s.context.Balanced outer → t.context.Balanced (outer + deeper))
    (hclients : s.editor.Balanced → t.editor.Balanced) (hnotes : .strayEnd ∉ notes) :
    Steadies deeper s t := by
  have hsince := since_eq hjournal
  exact ⟨hsince ▸ hjournal, fun _ => ⟨hcontext, hclients, fun _ _ _ => hsince ▸ hnotes⟩⟩

/-- A step that does nothing to editions. -/
theorem aside (notes : List Happening)
    (hjournal : t.editor.journal = s.editor.journal ++ notes)
    (hmode : t.context.mode = s.context.mode)
    (hlevel : t.context.editionLevel = s.context.editionLevel)
    (hclients : s.editor.Balanced → t.editor.Balanced) (hnotes : .strayEnd ∉ notes) :
    Steadies 0 s t := by
  refine step notes hjournal (fun outer hs => ?_) hclients hnotes
  rw [Context.Balanced, hmode, hlevel]
  exact hs

/-- A step that does nothing to editions and tells nothing. -/
theorem still (hjournal : t.editor.journal = s.editor.journal)
    (hmode : t.context.mode = s.context.mode)
    (hlevel : t.context.editionLevel = s.context.editionLevel)
    (hclients : s.editor.Balanced → t.editor.Balanced) : Steadies 0 s t :=
  aside [] (hjournal.trans (List.append_nil _).symm) hmode hlevel hclients List.not_mem_nil

theorem refl (s : Scene) : Steadies 0 s s := still rfl rfl rfl id

theorem trans (h : Steadies deeper s t) (h' : Steadies more t u) :
    Steadies (deeper + more) s u := by
  have hsince : s.since u = s.since t ++ t.since u := Editor.since_append h.journal h'.journal
  refine ⟨?_, fun hnone => ?_⟩
  · rw [hsince, ← List.append_assoc, ← h.journal]
    exact h'.journal
  · rw [hsince, List.mem_append, not_or] at hnone
    have hfirst := h.keeps hnone.1
    have hlater := h'.keeps hnone.2
    refine ⟨fun outer hs => ?_, hlater.clients ∘ hfirst.clients, fun outer hs hclients => ?_⟩
    · rw [← Nat.add_assoc]
      exact hlater.context _ (hfirst.context outer hs)
    · rw [hsince, List.mem_append, not_or]
      exact ⟨hfirst.ends outer hs hclients,
        hlater.ends _ (hfirst.context outer hs) (hfirst.clients hclients)⟩

/-- What is done in another context, which is balanced when it begins. -/
theorem inside {inner : Scene} (h : Steadies 0 inner t) (notes : List Happening)
    (hstart : inner.editor.journal = s.editor.journal)
    (hinner : s.editor.Balanced → inner.editor.Balanced ∧ inner.context.Balanced 0)
    (hstop : u.editor.journal = t.editor.journal ++ notes) (hcontext : u.context = s.context)
    (hclients : t.editor.Balanced → t.context.Balanced 0 → u.editor.Balanced)
    (hnotes : .strayEnd ∉ notes) : Steadies 0 s u := by
  have hjournal : u.editor.journal = s.editor.journal ++ (inner.since t ++ notes) := by
    rw [hstop, h.journal, hstart, List.append_assoc]
  have hsince := since_eq hjournal
  refine ⟨hsince ▸ hjournal, fun hnone => ?_⟩
  rw [hsince, List.mem_append, not_or] at hnone
  have hkeeps := h.keeps hnone.1
  refine ⟨fun outer hs => hcontext ▸ hs, fun hs => ?_, fun _ _ hs => ?_⟩
  · obtain ⟨hheld, hbalanced⟩ := hinner hs
    exact hclients (hkeeps.clients hheld) (hkeeps.context 0 hbalanced)
  · obtain ⟨hheld, hbalanced⟩ := hinner hs
    rw [hsince, List.mem_append, not_or]
    exact ⟨hkeeps.ends 0 hbalanced hheld, hnotes⟩

/-! ## Opening and closing -/

theorem begun (s : Scene) : Steadies 1 s s.begun := by
  refine step [] (List.append_nil _).symm (fun outer hs => ?_) id List.not_mem_nil
  exact (congrArg (· + 1) hs).trans (Nat.add_right_comm outer _ 1)

/-- Insert mode opens an edition. -/
theorem entered (h : s.context.mode ≠ .insert) (position : InsertPosition) :
    Steadies 0 s (s.turned .insert position).begun := by
  refine step [] (List.append_nil _).symm (fun outer hs => ?_) id List.not_mem_nil
  rw [Context.balanced_of_ne h] at hs
  exact (Context.balanced_of_insert rfl _).mpr (congrArg (· + 1) hs)

/-- When insert mode is left, its edition is still open. -/
theorem turned (h : s.context.mode = .insert) {mode : KeymapMode} (hmode : mode ≠ .insert)
    (position : InsertPosition) : Steadies 1 s (s.turned mode position) := by
  refine step [] (List.append_nil _).symm (fun outer hs => ?_) id List.not_mem_nil
  rw [Context.balanced_of_insert h] at hs
  exact (Context.balanced_of_ne hmode _).mpr hs

/-- An edition that is open ends, which tells the journal nothing. -/
theorem ended (h : Steadies 1 s t) : Steadies 0 s t.checked.ended := by
  have hmoves := Moves.endEdition t
  have hsince : s.since t.checked.ended = s.since t ++ t.since t.checked.ended :=
    Editor.since_append h.journal hmoves.journal_eq
  refine ⟨?_, fun hnone => ?_⟩
  · rw [hsince, ← List.append_assoc, ← h.journal]
    exact hmoves.journal_eq
  rw [hsince, List.mem_append, not_or] at hnone
  have hkeeps := h.keeps hnone.1
  refine ⟨fun outer hs => ?_, fun hs => ?_, fun outer hs hclients => ?_⟩
  · obtain ⟨hopen, hended⟩ := balanced_ended (hkeeps.context outer hs)
    rw [hopen]
    exact hended
  · have hclients : t.checked.ended.editor.clients = t.editor.clients := by
      rw [clients_ended, checked]
      split <;> rfl
    rw [Editor.Balanced, hclients]
    exact hkeeps.clients hs
  · obtain ⟨hopen, -⟩ := balanced_ended (hkeeps.context outer hs)
    have hnothing : t.since t.checked.ended = [] := by
      rw [hopen]
      exact since_eq ((journal_ended t).trans (List.append_nil _).symm)
    rw [hsince, hnothing, List.append_nil]
    exact hkeeps.ends outer hs hclients

end Steadies

/-! ## What acts do to editions -/

instance : Admits (Steadies 0) where
  refl := .refl
  trans := .trans
  note _ _ _ _ _ _ := .still rfl rfl rfl id
  tables {s} place tables _ := by
    have hjournal := journal_setTablesAt s place tables
    cases place <;> exact .still hjournal rfl rfl id
  type _ _ := .still rfl rfl rfl id
  tell s id := .aside [.debugged id (!(s.editor.document id).noUndo)] rfl rfl rfl (fun hs => hs)
    (by simp)
  undo s := .aside [.undone s.context.document] rfl rfl rfl id (by simp)
  redo s := .aside [.redone s.context.document] rfl rfl rfl id (by simp)
  select _ := .still rfl rfl rfl id
  retitle hrename := by
    obtain ⟨documents, id, -, rfl⟩ := Editor.renameDocument_eq hrename
    exact .still rfl rfl rfl (fun hs => hs)
  rename {s _ _} hrename := by
    refine .aside [s.renameNote] rfl rfl rfl (fun hs => ?_) (by simp [renameNote])
    intro c hc
    obtain ⟨held, given, hheld, rfl⟩ := Clients.holds_of_rename hrename hc
    exact hs held hheld
  create text _ h :=
    .inside h [] rfl (fun hs => ⟨hs, rfl⟩) (List.append_nil _).symm rfl (fun ht _ => ht)
      List.not_mem_nil
  mute {s _ _ _} text failed _ h :=
    .inside h [.debugOpened s.editor.store.length failed] rfl (fun hs => ⟨hs, rfl⟩) rfl rfl
      (fun ht _ => ht) (by simp)
  draft {s _} h :=
    .inside h [.drafted s.context.document s.context.isEditing] rfl
      (fun hs => ⟨hs, rfl⟩) rfl rfl (fun ht _ => ht) (by simp)
  tracking {s t} id l h := by
    have hbefore : Steadies 0 s (s.tracking id l) := .still rfl rfl rfl (fun hs => hs)
    have hafter : ∀ d, Steadies 0 t { t with editor := t.editor.setDocument id d } :=
      fun _ => .still rfl rfl rfl (fun hs => hs)
    exact (hbefore.trans h).trans (hafter _)
  client {s t name other clients} hcheckout h := by
    obtain ⟨hother, hheld⟩ := Clients.holds_of_checkout hcheckout
    refine .inside h [.visited name] rfl
      (fun hs => ⟨fun c hc => hs c (hheld c hc), hs other hother⟩)
      (t.editor.journal_visited name _) rfl ?_ (by simp)
    intro ht hcontext c hc
    have hc : (t.editor.checkin name t.context.forgetDrawing).clients.Holds c := hc
    rw [Editor.clients_checkin] at hc
    rcases (Clients.holds_of_checkin _ _ _).2 c hc with rfl | hkept
    · exact hcontext
    · exact ht c hkept

instance : Admits StaysOut where
  refl _ hs := hs
  trans h h' hs := h' (h hs)
  note _ _ _ _ _ _ hs := hs
  tables {s} place _ _ hs := by cases place <;> exact hs
  type _ _ hs := hs
  tell _ _ hs := hs
  undo _ hs := hs
  redo _ hs := hs
  select _ hs := hs
  retitle _ hs := hs
  rename _ hs := hs
  create _ _ _ hs := hs
  mute _ _ _ _ hs := hs
  draft _ hs := hs
  tracking _ _ h hs := h hs
  client _ _ hs := hs

/-- **`Calm s t`** — editions are kept, and insert mode is not entered. -/
def Calm (s t : Scene) : Prop := Steadies 0 s t ∧ StaysOut s t

instance : Admits Calm where
  refl s := ⟨.refl s, Admits.refl s⟩
  trans h h' := ⟨h.1.trans h'.1, Admits.trans h.2 h'.2⟩
  note r c d st sh f := ⟨Admits.note r c d st sh f, Admits.note r c d st sh f⟩
  tables place tables h := ⟨Admits.tables place tables h, Admits.tables place tables h⟩
  type id h := ⟨Admits.type id h, Admits.type id h⟩
  tell s id := ⟨Admits.tell s id, Admits.tell s id⟩
  undo s := ⟨Admits.undo s, Admits.undo s⟩
  redo s := ⟨Admits.redo s, Admits.redo s⟩
  select x := ⟨Admits.select x, Admits.select x⟩
  retitle h := ⟨Admits.retitle h, Admits.retitle h⟩
  rename h := ⟨Admits.rename h, Admits.rename h⟩
  create text h h' := ⟨Admits.create text h h'.1, Admits.create text h h'.2⟩
  mute text failed h h' := ⟨Admits.mute text failed h h'.1, Admits.mute text failed h h'.2⟩
  draft h := ⟨Admits.draft h.1, Admits.draft h.2⟩
  tracking id l h := ⟨Admits.tracking id l h.1, Admits.tracking id l h.2⟩
  client h h' := ⟨Admits.client h h'.1, Admits.client h h'.2⟩

/-! ## What keys do to editions -/

theorem steadies_inEdition {act : Act Scene Unit} (h : Obeys (Steadies 0) act) :
    Obeys (Steadies 0) (inEdition act) := by
  intro s
  rw [perform_inEdition]
  exact ((Steadies.begun s).trans (h s.begun)).ended

/-- Insert mode is left; if it has been left already, the journal tells. -/
theorem steadies_leaveInsertMode : Obeys (Steadies 0) leaveInsertMode := by
  intro s
  rw [perform_leaveInsertMode]
  by_cases hmode : s.context.mode = .insert
  · have hescaping : s.escaping = s := if_pos hmode
    have hnormal : KeymapMode.normal ≠ .insert := nofun
    have hturned := Steadies.turned hmode hnormal s.context.insertPosition
    rw [hescaping]
    exact hturned.ended
  · have hescaping : s.escaping = { s with editor := s.editor.jot .strayEscape } := if_neg hmode
    have hstray : Moves s s.escaping := hescaping ▸ .stray s trivial
    have hended : Moves s.escaping
        (s.escaping.turned .normal s.context.insertPosition).checked.ended :=
      .trans (.turn _ _ _) (.endEdition _)
    refine ⟨(hstray.trans hended).journal_eq, fun hnone => absurd ?_ hnone⟩
    have htold : s.since s.escaping = [.strayEscape] := by
      rw [hescaping]
      exact since_eq rfl
    rw [hstray.since_trans hended, htold]
    exact List.mem_cons_self

theorem steadies_insertKey (key : Key) : Obeys (Steadies 0) (insertKey key) := by
  rcases obeys_insertKey (R := Steadies 0) key with hleave | h
  · rw [hleave]
    exact steadies_leaveInsertMode
  · exact h

/-- A key that was read in another mode than insert mode, which has not been entered since. -/
theorem steadies_normalKey (h : s.context.mode ≠ .insert) (key : Key) :
    Steadies 0 s ((normalKey key).perform s).2 := by
  rcases obeys_normalKey (R := Steadies 0) (fun _ => steadies_inEdition) key with
    ⟨position, henter⟩ | hobeys
  · rw [henter]
    exact .entered h position
  · exact hobeys s

section Pressing

variable {run : Runner} (hrun : ∀ env line, Obeys Calm (run env line))

include hrun

/-- **One key** — its hooks may press keys themselves, and leave insert mode, but do not enter
it. -/
theorem steadies_pressUnmapped (key : Key) : Obeys (Steadies 0) (pressUnmapped run key) := by
  refine obeys_get_bind ?_
  intro s
  split
  · rw [basicKey, perform_bind_ok (perform_get s)]
    split
    next =>
      have hhook : Obeys (Steadies 0) (runHook run "InsertKey" key.text) :=
        (obeys_runHook hrun _ _).mono And.left
      exact hhook.bind (fun _ => steadies_insertKey key) s
    next hmode =>
      have hhook := obeys_runHook hrun "NormalKey" key.text s
      rw [perform_bind]
      generalize (runHook run "NormalKey" key.text).perform s = done at hhook ⊢
      obtain ⟨_ | _, t⟩ := done
      · exact hhook.1
      · exact hhook.1.trans (steadies_normalKey (hhook.2 hmode) key)
  · exact obeys_echoKey key s

theorem steadies_pressAll (keys : List Key) : Obeys (Steadies 0) (pressAll run keys) :=
  obeys_forM (obeys_press (steadies_pressUnmapped hrun))

omit hrun in
/-- Closing insert mode behind keys ends its edition. -/
theorem steadies_closing (t : Scene) (before : KeymapMode) : Steadies 0 t (t.closing before) := by
  unfold closing
  split
  next hleft => exact (Steadies.turned hleft.2 hleft.1 _).ended
  next => exact .refl t

omit hrun in
theorem mode_closing (t : Scene) {before : KeymapMode} (h : before ≠ .insert) :
    (t.closing before).context.mode ≠ .insert := by
  unfold closing
  split
  next =>
    rw [mode_ended]
    exact h
  next hkept => exact fun hmode => hkept ⟨h, hmode⟩

/-- **A replay of keys** — it closes its own edition, and insert mode if it was not in it before. -/
theorem calm_replayKeys (keys : List Key) : Obeys Calm (replayKeys run keys) := by
  intro s
  rw [perform_replayKeys]
  have hpressed := (Steadies.begun s).trans (steadies_pressAll hrun keys s.begun)
  generalize (pressAll run keys).perform s.begun = pressed at hpressed ⊢
  constructor
  · have hended := (hpressed.trans (steadies_closing pressed.2 s.context.mode)).ended
    have hrestored : ∀ (t : Scene) saved, Steadies 0 t (t.restored saved) := fun _ _ =>
      .still rfl rfl rfl id
    exact hended.trans (hrestored _ _)
  · intro hmode
    have hended := mode_ended (pressed.2.closing s.context.mode)
    exact hended.symm ▸ mode_closing pressed.2 hmode

end Pressing

/-! ## Command lines and scripts -/

theorem calm_execute (env : Environment) (line : String) : Obeys Calm (execute env line) :=
  obeys_execute (fun _ => calm_replayKeys) env line

/-- By induction on the script. -/
theorem Script.steadies_act (script : Script) : Obeys (Steadies 0) script.act := by
  induction script with
  | line env text => exact (calm_execute env text).mono And.left
  | press keys => exact steadies_pressAll calm_execute keys
  | replay keys => exact (calm_replayKeys calm_execute keys).mono And.left
  | draft itersel body ih => exact obeys_route _ ih
  | seq first second ih ih' => exact ih.attempt.bind fun _ => ih'

/-- **Editions stay balanced** — for every scene and every script of command lines, keys, replays
and drafts, whatever is hooked and mapped and whether anything fails or not, if the journal tells of
no `<esc>` that leaves insert mode twice: as many editions of the context are open afterwards as
before, besides that of insert mode; no edition of any context has ended where none was open; and
the contexts of clients are in an edition afterwards if they are in insert mode, and else in
none. -/
theorem editions_stay_balanced (s : Scene) (script : Script) (outer : Nat)
    (hcontext : s.context.Balanced outer) (hclients : s.editor.Balanced)
    (hnotes : .strayEscape ∉ s.since (script.act.perform s).2) :
    let t := (script.act.perform s).2
    t.context.Balanced outer ∧ t.editor.Balanced ∧ .strayEnd ∉ s.since t := by
  have hkeeps := (script.steadies_act s).keeps hnotes
  exact ⟨hkeeps.context outer hcontext, hkeeps.clients hclients,
    hkeeps.ends outer hcontext hclients⟩

/-- A hook on `x` leaves insert mode, so that the key is typed in normal mode, and a hook on `z`
fails in a draft. Another client leaves insert mode before the context enters it again. -/
theorem editions_stay_balanced_hooked :
    let onX : Hook HookBody := ⟨"", ⟨"x", .item (.one (.range 120 120) 0)⟩, .commands "exec <esc>"⟩
    let onZ : Hook HookBody := ⟨"", ⟨"z", .item (.one (.range 122 122) 0)⟩, .commands "nope"⟩
    let d : Document :=
      { name := "notes", text := ['a'], nextListener := 2
        listeners := [⟨0, .tracker default⟩, ⟨1, .tracker default⟩]
        scopes := { hooks := ⟨[("InsertKey", [onX, onZ])]⟩ } }
    let one : Context :=
      { name := "one", document := 0, tracker := 1, window := some {}, mode := .insert
        editionLevel := 1 }
    let s : Scene :=
      ⟨{ store := [d], commands := Command.coreTable
         clients := { slots := ⟨"client", [("one", some one)]⟩ } },
        { name := "main", document := 0, tracker := 0 }⟩
    let script : Script :=
      .seq (.press [.ofChar 'i', .ofChar 'x'])
        (.seq (.draft true (.replay [.ofChar 'i', .ofChar 'y', .ofChar 'z']))
          (.seq (.line {} "exec -client one y<esc>") (.press [.ofChar 'a'])))
    let t := (script.act.perform s).2
    s.context.Balanced 0 ∧ s.editor.Balanced ∧
      s.since t = [.drafted 0 false, .visited "one"] ∧ t.document.text = ['x', 'y', 'y', 'a'] ∧
      t.context.mode = .insert ∧ t.context.editionLevel = 1 ∧ t.editor.Balanced := by
  intro onX onZ d one s script
  have hrun : (fun t : Scene => (s.since t, t.document.text, t.context.mode))
      (script.act.perform s).2 =
        ([.drafted 0 false, .visited "one"], ['x', 'y', 'y', 'a'], .insert) := by
    decide +kernel
  have hclients : s.editor.Balanced := by
    rintro c ⟨name, hname⟩
    obtain ⟨-, hone⟩ := Prod.mk.inj (List.mem_singleton.mp hname)
    rw [Option.some.inj hone]
    rfl
  have hnotes : .strayEscape ∉ s.since (script.act.perform s).2 := by
    rw [(Prod.mk.inj hrun).1]
    decide
  have hmain := editions_stay_balanced s script 0 rfl hclients hnotes
  -- the run is not evaluated again
  generalize (script.act.perform s).2 = t at hrun hmain ⊢
  simp only [Prod.mk.injEq] at hrun
  obtain ⟨hjournal, htext, hmode⟩ := hrun
  exact ⟨rfl, hclients, hjournal, htext, hmode,
    (Context.balanced_of_insert hmode 0).mp hmain.1, hmain.2.1⟩

/-- An edition is closed that somebody else has opened. A hook on `x` replays `<esc>i`, and a hook
on `<esc>` removes itself and replays `<esc>`, which leaves insert mode. Then the first `<esc>`
leaves it once more, and so closes the edition of the replay. When `x` is typed, the context is in
insert mode again, but in no edition. -/
theorem edition_lost_to_stray_escape :
    let onX : Hook HookBody := ⟨"", ⟨"x", .item (.one (.range 120 120) 0)⟩, .commands "exec <esc>i"⟩
    let onEscape : Hook HookBody :=
      ⟨"b", ⟨"<", .item (.one (.range 60 60) 0)⟩, .commands "rmhooks buffer=notes b; exec <esc>"⟩
    let d : Document :=
      { name := "notes", text := ['a'], nextListener := 1, listeners := [⟨0, .tracker default⟩]
        scopes := { hooks := ⟨[("InsertKey", [onX, onEscape])]⟩ } }
    let s : Scene :=
      ⟨{ store := [d], documents := ⟨"buffer", [("notes", 0)]⟩, commands := Command.coreTable },
        { name := "main", document := 0, tracker := 0 }⟩
    let script : Script := .press [.ofChar 'i', .ofChar 'x']
    let t := (script.act.perform s).2
    s.context.Balanced 0 ∧ s.editor.Balanced ∧ s.since t = [.strayEscape] ∧
      t.document.text = ['x', 'a'] ∧ t.context.mode = .insert ∧ t.context.editionLevel = 0 := by
  intro onX onEscape d s script t
  have hrun : (fun t : Scene =>
      (s.since t, t.document.text, t.context.mode, t.context.editionLevel))
        (script.act.perform s).2 = ([.strayEscape], ['x', 'a'], .insert, 0) := by
    decide +kernel
  simp only [Prod.mk.injEq] at hrun
  have hclients : s.editor.Balanced := by
    rintro c ⟨name, hname⟩
    cases hname
  exact ⟨rfl, hclients, hrun⟩

end Scene

end ModalEdit
