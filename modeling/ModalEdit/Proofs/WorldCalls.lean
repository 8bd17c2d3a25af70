import ModalEdit.Proofs.ClientCalls
import ModalEdit.Proofs.DraftEditions

/-!
# Calls from outside

A world is an editor with the contexts that are held outside of it. Calls open and close documents
and clients, make contexts, and have command lines run, keys pressed and configs applied in any of
them. Each call comes to moves, and to little else before and after them: a tracker is made or
dropped (`fire_cases`, `changeDocument_cases`, `removeClient_cases`), or an open document is
forgotten (`closeDocument_cases`).
-/

namespace ModalEdit

open Act

/-! ## Calls -/

/-- What is done in a context. -/
inductive Work where
  | run (script : Scene.Script)
  | configure (config : Config)
  /-- The context is moved onto an open document. -/
  | move (document : String)

/-- Does the work. -/
def Work.act : Work → Act Scene Unit
  | .run script => script.act
  | .configure config => do
    let _ ← Scene.applyConfig config
  | .move document => Scene.changeDocument document

/-- A call from outside. -/
inductive WorldCall where
  | createDocument (name text : String)
  | closeDocument (name : String)
  | createClient (document : Nat) (name : Option String)
  | removeClient (name : String)
  /-- A context is made, with a window of its own or without one. -/
  | makeContext (name : String) (document : Nat) (windowed : Bool)
  | workInClient (name : String) (work : Work)
  | workInContext (index : Nat) (work : Work)

/-- An editor, and the contexts that are held outside of it. -/
structure World where
  editor : Editor
  contexts : List Context := []

namespace World

/-- The world after work in one of the contexts outside, if there is one with that number. -/
def workIn (w : World) (index : Nat) (work : Work) : World :=
  match w.contexts[index]? with
  | none => w
  | some ctx =>
    let done := (work.act.perform ⟨w.editor, ctx⟩).2
    ⟨done.editor, w.contexts.set index done.context⟩

/-- The world after a call, whether the call fails or not. -/
def after (w : World) : WorldCall → World
  | .createDocument name text =>
    { w with editor := ((Editor.createDocument Scene.execute name text).perform w.editor).2 }
  | .closeDocument name =>
    { w with editor := ((Editor.closeDocument Scene.execute name).perform w.editor).2 }
  | .createClient document name =>
    { w with editor := ((Editor.createClient Scene.execute document name).perform w.editor).2 }
  | .removeClient name =>
    { w with editor := ((Editor.removeClient name).perform w.editor).2 }
  | .makeContext name document windowed =>
    let window := if windowed then some {} else none
    let (ctx, editor) := w.editor.newContext name document window default
    ⟨editor, w.contexts ++ [ctx]⟩
  | .workInClient name work =>
    { w with editor := ((Editor.inClient name work.act).perform w.editor).2 }
  | .workInContext index work => w.workIn index work

/-- The world after calls in order. -/
def afterCalls (w : World) (calls : List WorldCall) : World := calls.foldl after w

end World

/-! ## What calls come to -/

/-- Moving a context fails for want of the document, or gives it a tracker there for its own. -/
theorem Scene.changeDocument_cases (s : Scene) (name : String) :
    let done := ((changeDocument name).perform s).2
    done = s ∨ ∃ id, s.editor.documentNamed name = .ok id ∧
      done = ⟨(s.editor.moveContext s.context id).2, (s.editor.moveContext s.context id).1⟩ := by
  rw [changeDocument, perform_bind_ok (perform_get s), perform_bind, perform_ofExcept]
  cases s.editor.documentNamed name with
  | error error => exact .inl rfl
  | ok id => exact .inr ⟨id, rfl, rfl⟩

namespace Editor

/-- Firing an event makes moves in a new context, which is then dropped. -/
theorem fire_cases (e : Editor) (name : String) (document : Nat) (event param : String) :
    let opened := e.newContext name document none default
    ∃ t, Scene.Moves ⟨opened.2, opened.1⟩ t ∧
      ((fire Scene.execute name document event param).perform e).2 =
        t.editor.release t.context := by
  intro opened
  have hmoves := Scene.obeys_runHook Scene.moving_execute event param ⟨opened.2, opened.1⟩
  exact ⟨_, hmoves, congrArg Prod.snd (Scene.perform_fire name document event param e)⟩

/-- The editor without an open document. -/
def forgetting (e : Editor) (name : String) : Editor :=
  { e with documents := e.documents.erase name }

/-- Hooks run on a document that is closed; unless they fail, what has its name then is closed. -/
theorem perform_closeDocument {e : Editor} {id : Nat} {name : String}
    (hname : e.documents.get? name = some id) :
    (closeDocument Scene.execute name).perform e =
      let hooks := (fire Scene.execute name id "BufClose" name).perform e
      (hooks.1, if hooks.1.isOk then hooks.2.forgetting name else hooks.2) := by
  have hnamed : e.documentNamed name = .ok id := by
    rw [documentNamed, NameMap.find, hname]
  unfold closeDocument
  rw [perform_bind_ok (perform_get e), perform_bind, perform_ofExcept, hnamed]
  dsimp only
  rw [perform_bind]
  rcases (fire Scene.execute name id "BufClose" name).perform e with ⟨_ | _, fired⟩ <;> rfl

theorem perform_closeDocument_of_none {e : Editor} {name : String}
    (hname : e.documents.get? name = none) :
    (closeDocument Scene.execute name).perform e =
      (.error (.registry (e.documents.notFound name)), e) := by
  have hnamed : e.documentNamed name = .error (.registry (e.documents.notFound name)) := by
    rw [documentNamed, NameMap.find, hname]
  unfold closeDocument
  rw [perform_bind_ok (perform_get e), perform_bind, perform_ofExcept, hnamed]

/-- What closing a document leaves, whether it fails or not. -/
theorem closeDocument_cases (e : Editor) (name : String) :
    let done := ((closeDocument Scene.execute name).perform e).2
    done = e ∨ ∃ id, let fired := ((fire Scene.execute name id "BufClose" name).perform e).2
      done = fired ∨ done = fired.forgetting name := by
  cases hname : e.documents.get? name with
  | none => exact .inl (congrArg Prod.snd (perform_closeDocument_of_none hname))
  | some id =>
    refine .inr ⟨id, ?_⟩
    rw [perform_closeDocument hname]
    dsimp only
    -- a hook that fails leaves the document open
    split
    · exact .inr rfl
    · exact .inl rfl

/-- What removing a client leaves: if its context is in the slot, it is dropped. -/
theorem removeClient_cases (e : Editor) (name : String) :
    let removed : Editor := { e with clients := e.clients.remove name }
    let done := ((removeClient name).perform e).2
    done = removed ∨ ∃ ctx, done = removed.release ctx := by
  intro removed done
  have hdone : done = (e.clients.context? name).elim removed removed.release := rfl
  rw [hdone]
  cases e.clients.context? name with
  | none => exact .inl rfl
  | some ctx => exact .inr ⟨ctx, rfl⟩

end Editor

end ModalEdit
