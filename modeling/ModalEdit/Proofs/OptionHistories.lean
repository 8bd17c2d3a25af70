import ModalEdit.Proofs.OptionTypes
import ModalEdit.Proofs.WorldCalls

/-!
# Option types agree in every history

Whatever calls are made from outside and whether they fail or not, the options of documents and
windows have the types that they have in the editor, and these do not change
(`option_types_agree`). That goes for the windows of clients and of contexts that are held outside.
-/

namespace ModalEdit

open Act

/-! ## Options that fit -/

namespace World

/-- **`w.Holds store`** — the options are those of a document, or of a window of a client or of a
context that is held outside. -/
inductive Holds (w : World) : OptionStore → Prop
  | document (id : Nat) : Holds w (w.editor.document id).scopes.options
  | client {ctx : Context} {window : Window} :
    w.editor.clients.Holds ctx → ctx.window = some window → Holds w window.scopes.options
  | context {ctx : Context} {window : Window} :
    ctx ∈ w.contexts → ctx.window = some window → Holds w window.scopes.options

/-- **`w.Agrees`** — the editor agrees, and the windows of the contexts outside fit. -/
structure Agrees (w : World) : Prop where
  editor : w.editor.Agrees
  contexts : ∀ ctx ∈ w.contexts, ctx.Fits w.editor.globals

/-- **`w.Extends w'`** — from `w` to `w'`, options stay and keep their types, and `w'` agrees. -/
structure Extends (w w' : World) : Prop where
  agrees : w'.Agrees
  types : w.editor.globals.Fits w'.editor.globals

variable {w w' w'' : World}

theorem Extends.trans (h : w.Extends w') (h' : w'.Extends w'') : w.Extends w'' :=
  ⟨h'.agrees, h.types.trans h'.types⟩

theorem Agrees.fits (h : w.Agrees) {store : OptionStore} (hstore : w.Holds store) :
    store.Fits w.editor.globals := by
  cases hstore with
  | document id => exact h.editor.documents id
  | client hheld hwindow => exact h.editor.clients _ hheld _ hwindow
  | context hmem hwindow => exact h.contexts _ hmem _ hwindow

/-- The contexts outside are left alone. -/
theorem Agrees.onEditor (h : w.Agrees) {e : Editor} (he : w.editor.Extends e) :
    w.Extends { w with editor := e } :=
  ⟨⟨he.agrees, fun ctx hctx => (h.contexts ctx hctx).trans he.types⟩, he.types⟩

end World

/-! ## Work in a context -/

namespace Scene

variable {s : Scene}

theorem Agrees.moving (hs : s.Agrees) {α : Type} {act : Act Scene α} (h : Moving act) :
    s.Extends (act.perform s).2 :=
  (h s).extends hs

theorem Agrees.changeDocument (hs : s.Agrees) (name : String) :
    s.Extends ((changeDocument name).perform s).2 := by
  rcases s.changeDocument_cases name with hfailed | ⟨id, -, hmoved⟩
  · rw [hfailed]
    exact hs.extends hs.editor.refl rfl
  · have htracked : s.editor.Extends
        (s.editor.setDocument id ((s.editor.document id).track default).2) :=
      hs.editor.setDocument rfl
    rw [hmoved]
    exact hs.extends (htracked.trans (htracked.agrees.release s.context)) rfl

/-- **One piece of work** — it extends, whatever it is, and whether it fails or not. -/
theorem Agrees.work (hs : s.Agrees) (work : Work) : s.Extends (work.act.perform s).2 := by
  cases work with
  | run script => exact hs.moving script.moving_act
  | configure config => exact hs.moving ((moving_applyConfig config).bind fun _ => obeys_pure _)
  | move document => exact hs.changeDocument document

end Scene

namespace Editor

variable {e : Editor}

theorem agrees_new (host : Host) : (Editor.new host).Agrees where
  documents _ := .empty _
  clients _ hctx := by
    obtain ⟨_, hmem⟩ := hctx
    cases hmem

/-- A context without a window in some editor that agrees. -/
theorem Agrees.windowless (h : e.Agrees) {ctx : Context} (hctx : ctx.window = none) :
    Scene.Agrees ⟨e, ctx⟩ :=
  ⟨h, .of_none hctx⟩

theorem Agrees.createDocument (h : e.Agrees) (name text : String) :
    e.Extends ((createDocument Scene.execute name text).perform e).2 := by
  have hmoves := Scene.moves_createDocument ⟨e, { name, document := 0, tracker := 0 }⟩ name text
  exact (hmoves.extends (h.windowless rfl)).editor

theorem Agrees.fire (h : e.Agrees) (name : String) (document : Nat) (event param : String) :
    e.Extends ((Editor.fire Scene.execute name document event param).perform e).2 := by
  obtain ⟨t, hmoves, hfired⟩ := e.fire_cases name document event param
  have hopened : e.Extends (e.newContext name document none default).2 := h.setDocument rfl
  have hdone := hmoves.extends (hopened.agrees.windowless rfl)
  rw [hfired]
  exact (hopened.trans hdone.editor).trans (hdone.editor.agrees.release _)

theorem Agrees.closeDocument (h : e.Agrees) (name : String) :
    e.Extends ((closeDocument Scene.execute name).perform e).2 := by
  rcases e.closeDocument_cases name with hfailed | ⟨id, hfailed | hclosed⟩
  · rw [hfailed]
    exact h.refl
  · rw [hfailed]
    exact h.fire name id "BufClose" name
  · have hfired := h.fire name id "BufClose" name
    rw [hclosed]
    exact hfired.trans (hfired.agrees.keep rfl rfl hfired.agrees.clients)

/-- The window of a new client holds no options. -/
theorem Agrees.createClient (h : e.Agrees) (document : Nat) (name : Option String) :
    e.Extends ((createClient Scene.execute document name).perform e).2 := by
  show e.Extends (e.afterCall (.create document name))
  obtain ⟨number, hnamed | ⟨client, t, hmoves, hmade⟩⟩ := create_cases document name e
  · rw [hnamed]
    exact h.keep rfl rfl h.clients
  · have hnumbered : e.Extends (e.numbered number) := h.keep rfl rfl h.clients
    have hmaking : e.Extends ((e.numbered number).making document client).editor :=
      hnumbered.trans (hnumbered.agrees.setDocument rfl)
    have hwindow : ((e.numbered number).making document client).context.Fits
        ((e.numbered number).making document client).editor.globals := by
      intro w hw
      obtain rfl := Option.some.inj hw
      exact .empty _
    have hdone := hmoves.extends ⟨hmaking.agrees, hwindow⟩
    have hall := hmaking.trans hdone.editor
    -- hooks can take the name meanwhile: then the new context is released, and is no client
    rcases hmade with hdropped | ⟨clients, hadd, hadded⟩
    · rw [hdropped]
      exact hall.trans (hall.agrees.release t.context)
    · rw [hadded]
      refine hall.trans (hall.agrees.keep rfl rfl fun ctx hctx => ?_)
      rcases (Clients.holds_add hadd).mp hctx with rfl | hheld
      · exact hdone.window
      · exact hall.agrees.clients ctx hheld

theorem Agrees.removeClient (h : e.Agrees) (name : String) :
    e.Extends ((removeClient name).perform e).2 := by
  have hremoved : e.Extends { e with clients := e.clients.remove name } :=
    h.keep rfl rfl fun ctx hctx => h.clients ctx (Clients.holds_of_remove hctx)
  rcases e.removeClient_cases name with hkept | ⟨ctx, hdropped⟩
  · rw [hkept]
    exact hremoved
  · rw [hdropped]
    exact hremoved.trans (hremoved.agrees.release ctx)

theorem Agrees.inClient (h : e.Agrees) (name : String) (work : Work) :
    e.Extends ((inClient name work.act).perform e).2 := by
  rw [perform_inClient]
  cases hcheckout : e.clients.checkout name with
  | error error => exact h.refl
  | ok found =>
    obtain ⟨hother, hheld⟩ := Clients.holds_of_checkout hcheckout
    have hout : e.Extends { e with clients := found.2 } :=
      h.keep rfl rfl fun ctx hctx => h.clients ctx (hheld ctx hctx)
    have hscene : Scene.Agrees ⟨{ e with clients := found.2 }, found.1⟩ :=
      ⟨hout.agrees, (h.clients _ hother).trans hout.types⟩
    have hdone := hscene.work work
    exact (hout.trans hdone.editor).trans (hdone.editor.agrees.checkin name hdone.window)

end Editor

/-! ## All calls -/

namespace World

variable {w : World}

theorem Agrees.workIn (h : w.Agrees) (index : Nat) (work : Work) :
    w.Extends (w.workIn index work) := by
  unfold World.workIn
  cases hctx : w.contexts[index]? with
  | none => exact ⟨h, .refl _⟩
  | some ctx =>
    have hscene : Scene.Agrees ⟨w.editor, ctx⟩ :=
      ⟨h.editor, h.contexts ctx (List.mem_of_getElem? hctx)⟩
    have hdone := hscene.work work
    -- windows of the other contexts stay, and fit the editor that has more options
    refine ⟨⟨hdone.editor.agrees, fun other hother => ?_⟩, hdone.editor.types⟩
    rcases List.mem_or_eq_of_mem_set hother with hold | rfl
    · exact (h.contexts other hold).trans hdone.editor.types
    · exact hdone.window

/-- **One call** — options stay and keep their types, and the world agrees. -/
theorem Agrees.after (h : w.Agrees) (call : WorldCall) : w.Extends (w.after call) := by
  cases call with
  | createDocument name text => exact h.onEditor (h.editor.createDocument name text)
  | closeDocument name => exact h.onEditor (h.editor.closeDocument name)
  | createClient document name => exact h.onEditor (h.editor.createClient document name)
  | removeClient name => exact h.onEditor (h.editor.removeClient name)
  | workInClient name work => exact h.onEditor (h.editor.inClient name work)
  | makeContext name document windowed =>
    have hmade : w.editor.Extends
        (w.editor.setDocument document ((w.editor.document document).track default).2) :=
      h.editor.setDocument rfl
    refine ⟨⟨hmade.agrees, fun ctx hctx => ?_⟩, hmade.types⟩
    rcases List.mem_append.mp hctx with hold | hnew
    · exact (h.contexts ctx hold).trans hmade.types
    · obtain rfl := List.mem_singleton.mp hnew
      cases windowed with
      | false => exact .of_none rfl
      | true =>
        intro window hwindow
        obtain rfl := Option.some.inj hwindow
        exact .empty _
  | workInContext index work => exact h.workIn index work

theorem Agrees.afterCalls (h : w.Agrees) (calls : List WorldCall) :
    w.Extends (w.afterCalls calls) := by
  induction calls generalizing w with
  | nil => exact ⟨h, .refl _⟩
  | cons call calls ih => exact (h.after call).trans (ih (h.after call).agrees)

end World

/-! ## Failures -/

namespace Scene

theorem reads_positional (p : Parameters) (index : Nat) : (positional p index).Reads := by
  intro s
  rcases positional_cases s p index with ⟨_, h⟩ | ⟨_, -, h⟩ <;> rw [h]

theorem atomic_decl (p : Parameters) : (decl p).Atomic :=
  (reads_positional p 0).bind_atomic fun _ =>
    (reads_positional p 1).bind_atomic fun _ =>
      (reads_ofRegistry _).bind_atomic fun _ => atomic_updateTables _ _

theorem atomic_applyOption (name : String) (value : Toml.Value) :
    (applyOption name value).Atomic := by
  unfold applyOption
  split
  next error _ => exact Reads.atomic fun _ => rfl
  next text _ => exact atomic_updateTables _ _

end Scene

/-- **Option types agree** — after any calls, whichever of them fail, every option of a document and
of a window is an option of the editor, and of the same type. After any later calls, every option
that the editor had is there, and of the same type. And in every scene, a declaration that fails
changes nothing, nor does an entry of a config that fails to set an option, nor does `set`, unless
it is a hook that fails once the option is set. -/
theorem option_types_agree (host : Host) (calls later : List WorldCall) :
    let w := World.afterCalls ⟨Editor.new host, []⟩ calls
    (∀ store, w.Holds store → ∀ name value, store.get? name = some value →
        ∃ found, w.editor.scopes.options.get? name = some found ∧ found.type = value.type) ∧
      (∀ name value, w.editor.scopes.options.get? name = some value →
        ∃ found, (w.afterCalls later).editor.scopes.options.get? name = some found ∧
          found.type = value.type) ∧
      ∀ (s t : Scene) (error : CommandError),
        (∀ p, (Scene.decl p).perform s = (.error error, t) → t = s) ∧
          (∀ name value, (Scene.applyOption name value).perform s = (.error error, t) → t = s) ∧
          ∀ run p, (Scene.setOption run p).perform s = (.error error, t) →
            t = s ∨ ∃ scope place name value,
              s.site scope = .ok place ∧ p.positional? 1 = some name ∧
                (Scene.runHook run (Scene.optionEvent scope) s!"{name}={value.text}").perform
                  (s.assigned place name value) = (.error error, t) := by
  intro w
  have hstart : World.Agrees ⟨Editor.new host, []⟩ := ⟨Editor.agrees_new host, nofun⟩
  have hw := (hstart.afterCalls calls).agrees
  refine ⟨fun store hstore => hw.fits hstore, (hw.afterCalls later).types, fun s t error => ?_⟩
  refine ⟨fun p => Scene.atomic_decl p, fun name value => Scene.atomic_applyOption name value, ?_⟩
  intro run p hset
  -- `set` stops before it writes, or it writes and ends as its hooks do
  rcases Scene.setOption_cases run p s with
    ⟨_, hfailed⟩ | ⟨_, scope, name, _, place, _, value, hpositionals, -, hplace, -, -, hran⟩
  · exact .inl (Prod.mk.inj (hset.symm.trans hfailed)).2
  · exact .inr ⟨scope, place, name, value, hplace, hpositionals.2.1, hran.symm.trans hset⟩

end ModalEdit
