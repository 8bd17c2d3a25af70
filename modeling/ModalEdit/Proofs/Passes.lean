import ModalEdit.Editor.Routing
import ModalEdit.Proofs.Evolution
import ModalEdit.Proofs.Performing

/-!
# The passes of an act that runs once per selection

`Passes` is the trace of `eachSelection` when nothing fails: which selection each pass was given,
the scene in which its body began and the one that it left behind. `exists_passes` finds the trace
of a run in the target context, and `exists_passes_route` that of a run which is sent to the
context of another client.
-/

namespace ModalEdit.Scene

open Act Text

theorem perform_setSelections_single (x : Selection) (s : Scene) :
    (setSelections (.single x)).perform s = (.ok (), { s with
      editor := s.editor.setDocument s.context.document
        (s.document.giving s.context.tracker (.single (x.map (clamp s.document.text)))) }) := by
  rw [setSelections, perform_bind_ok (perform_get s), Document.assign_single]
  rfl

/-- One pass: the selection that the context was given, and the scenes in which the body began and
ended. -/
structure Pass where
  selection : Selection
  start : Scene
  stop : Scene

/-- **`Passes document tracker body indices s passes t`** — from `s`, running `body` for the
selections of the tracker with those indices makes the passes and leaves `t`. It ends early when
the tracker has no selection with the next index. -/
inductive Passes (document tracker : Nat) (body : Act Scene Unit) :
    List Nat → Scene → List Pass → Scene → Prop
  | done (s : Scene) : Passes document tracker body [] s [] s
  | exhausted {index : Nat} {rest : List Nat} {s : Scene} :
    ((s.editor.document document).selections tracker).get? index = none →
      Passes document tracker body (index :: rest) s [] s
  | pass {index : Nat} {rest : List Nat} {s t : Scene} {p : Pass} {passes : List Pass} :
    ((s.editor.document document).selections tracker).get? index = some p.selection →
      (setSelections (.single p.selection)).perform s = (.ok (), p.start) →
      body.perform p.start = (.ok (), p.stop) →
      Passes document tracker body rest p.stop passes t →
      Passes document tracker body (index :: rest) s (p :: passes) t

theorem eachSelection_nil (document tracker : Nat) (body : Act Scene Unit) :
    eachSelection document tracker body [] = pure () := rfl

/-- A run that succeeds has a trace. -/
theorem exists_passes {document tracker : Nat} {body : Act Scene Unit} {indices : List Nat}
    {s t : Scene} (h : (eachSelection document tracker body indices).perform s = (.ok (), t)) :
    ∃ passes, Passes document tracker body indices s passes t := by
  induction indices generalizing s with
  | nil =>
    rw [eachSelection_nil, perform_pure] at h
    obtain rfl := (Prod.mk.inj h).2
    exact ⟨[], .done s⟩
  | cons index rest ih =>
    -- either the tracker has no selection with that index, or it is that of a pass
    rw [eachSelection, perform_bind_ok (perform_get s)] at h
    split at h
    next hnone =>
      obtain rfl := (Prod.mk.inj h).2
      exact ⟨[], .exhausted hnone⟩
    next selection hsome =>
      obtain ⟨⟨⟩, start, hset, h⟩ := perform_bind_eq_ok.mp h
      obtain ⟨⟨⟩, stop, hbody, h⟩ := perform_bind_eq_ok.mp h
      obtain ⟨passes, hpasses⟩ := ih h
      exact ⟨⟨selection, start, stop⟩ :: passes, .pass hsome hset hbody hpasses⟩

/-! ## Where the passes begin -/

/-- The scene with a draft of its context. -/
def drafted (s : Scene) : Scene where
  editor := (s.editor.draft s.context).2
  context := { (s.editor.draft s.context).1 with undoEnabled := !s.context.isEditing }

theorem perform_inDraft (act : Act Scene Unit) (s : Scene) :
    (inDraft act).perform s =
      ((act.perform s.drafted).1, { s with
        editor := ((act.perform s.drafted).2.editor.release (act.perform s.drafted).2.context).jot
          (.drafted s.context.document s.context.isEditing) }) := by
  simp only [inDraft, perform_bind, perform_get, perform_set, perform_ofExcept]
  rfl

/-- The scene with a tracker added to a document. -/
def tracking (s : Scene) (document : Nat) (selections : SelectionList) : Scene :=
  { s with editor :=
      s.editor.setDocument document ((s.editor.document document).track selections).2 }

theorem perform_withTracker (document : Nat) (selections : SelectionList)
    (act : Nat → Act Scene Unit) (s : Scene) :
    (withTracker document selections act).perform s =
      let tracker := (s.editor.document document).nextListener
      let done := (act tracker).perform (s.tracking document selections)
      (done.1, { done.2 with
        editor := done.2.editor.modifyDocument document (·.unsubscribe tracker) }) := by
  simp only [withTracker, perform_bind, perform_get, perform_modifyEditor, perform_attempt,
    perform_ofExcept]
  rfl

/-- The scene in which the passes begin: with a draft, and a tracker of the selections. -/
def iterating (s : Scene) : Scene := s.drafted.tracking s.context.document s.selections

/-- The tracker that the passes read. -/
def passTracker (s : Scene) : Nat := (s.drafted.editor.document s.context.document).nextListener

/-- A run in the target context that succeeds has a trace. -/
theorem exists_passes_inTarget {flags : ContextFlags} {body : Act Scene Unit} {s : Scene}
    (hdraft : flags.draft = true) (hitersel : flags.itersel = true)
    (h : ((inTarget flags body).perform s).1 = .ok ()) :
    ∃ passes t, Passes s.context.document s.passTracker body (List.range s.selections.length)
      s.iterating passes t := by
  simp only [inTarget, hdraft, hitersel, Bool.not_true, Bool.false_eq_true, if_false] at h
  rw [perform_bind_ok (perform_get s), perform_inDraft, perform_withTracker] at h
  obtain ⟨passes, hpasses⟩ := exists_passes (Prod.ext h rfl)
  exact ⟨passes, _, hpasses⟩

/-! ## Other clients -/

/-- The scene in which a routed act runs: with the context of the requested client checked out, if
there is one. -/
def target (s : Scene) (flags : ContextFlags) : Scene :=
  match s.requestedClient flags with
  | none => s
  | some (name, _) =>
    match s.editor.clients.checkout name with
    | .ok (other, clients) => ⟨{ s.editor with clients }, other⟩
    | .error _ => s

theorem perform_borrowClient (flags : ContextFlags) (s : Scene) :
    (borrowClient flags).perform s =
      match s.requestedClient flags with
      | none => (.ok none, s)
      | some (name, required) =>
        match s.editor.clients.checkout name with
        | .ok (other, clients) =>
          (.ok (some (name, other)), { s with editor := { s.editor with clients } })
        | .error e => if required then (.error e, s) else (.ok none, s) := by
  rw [borrowClient, perform_bind_ok (perform_get s)]
  rcases s.requestedClient flags with _ | ⟨name, required⟩
  · rfl
  dsimp only
  rcases s.editor.clients.checkout name with e | ⟨other, clients⟩
  · cases required <;> rfl
  · rfl

theorem perform_inClient (name : String) (other : Context) (act : Act Scene Unit) (s : Scene) :
    (inClient name other act).perform s =
      let done := act.perform ⟨s.editor, other⟩
      (done.1, { s with
        editor := (done.2.editor.checkin name done.2.context.forgetDrawing).jot (.visited name) }) := by
  simp only [inClient, perform_bind, perform_get, perform_set, perform_ofExcept]

/-- A routed act that succeeds has run in the target scene, and succeeded there. -/
theorem perform_inTarget_of_route {flags : ContextFlags} {body : Act Scene Unit} {s : Scene}
    (h : ((route flags body).perform s).1 = .ok ()) :
    ((inTarget flags body).perform (s.target flags)).1 = .ok () := by
  unfold route at h
  split at h
  · cases h
  dsimp only at h
  rw [perform_bind, perform_borrowClient] at h
  unfold target
  cases hrequest : s.requestedClient flags with
  | none =>
    rw [hrequest] at h
    exact h
  | some request =>
    rw [hrequest] at h
    dsimp only at h ⊢
    cases hcheckout : s.editor.clients.checkout request.1 with
    | ok found =>
      rw [hcheckout] at h
      dsimp only at h
      rw [perform_inClient] at h
      exact h
    | error e =>
      rw [hcheckout] at h
      cases hrequired : request.2 with
      | true =>
        rw [hrequired] at h
        cases h
      | false =>
        rw [hrequired] at h
        exact h

/-- **The trace of a routed run** — when a run once per selection of a draft succeeds, it has made
its passes in the target scene. -/
theorem exists_passes_route {flags : ContextFlags} {body : Act Scene Unit} {s : Scene}
    (hdraft : flags.draft = true) (hitersel : flags.itersel = true)
    (h : ((route flags body).perform s).1 = .ok ()) :
    ∃ passes t, Passes (s.target flags).context.document (s.target flags).passTracker body
      (List.range (s.target flags).selections.length) (s.target flags).iterating passes t :=
  exists_passes_inTarget hdraft hitersel (perform_inTarget_of_route h)

end ModalEdit.Scene
