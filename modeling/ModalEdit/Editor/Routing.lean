import ModalEdit.Editor.Scene

/-!
# Where a command runs

A command can be sent to the context of another client, to a draft, which is a
disposable copy of a context, or to a draft once per selection. Whatever happens
there, a context that was checked out is put back and a draft is dropped.
-/

namespace ModalEdit.Scene

/-- Runs an act for the selections of a tracker with the given indices, each time with only that
selection in the context. The tracker is read anew each time, for the edits of one pass move the
selections of the later ones. -/
def eachSelection (document tracker : Nat) (body : Act Scene Unit) : List Nat → Act Scene Unit
  | [] => return
  | index :: rest => do
    match (((← get).editor.document document).selections tracker).get? index with
    | none => return
    | some selection =>
      setSelections (.single selection)
      body
      eachSelection document tracker body rest

/-- Runs an act in a draft of the context, which is dropped afterwards. The draft of a context with
an open edition leaves closing the undo step to that context. -/
def inDraft (act : Act Scene Unit) : Act Scene Unit := do
  let s ← get
  let (draft, e) := s.editor.draft s.context
  let (result, t) := act.perform ⟨e, { draft with undoEnabled := !s.context.isEditing }⟩
  set { s with editor :=
    (t.editor.release t.context).jot (.drafted s.context.document s.context.isEditing) }
  Act.ofExcept result

/-- Runs an act with a tracker of the given selections, which is dropped afterwards. -/
def withTracker (document : Nat) (selections : SelectionList) (act : Nat → Act Scene Unit) :
    Act Scene Unit := do
  let (tracker, d) := ((← get).editor.document document).track selections
  modifyEditor (·.setDocument document d)
  let result ← (act tracker).attempt
  modifyEditor (·.modifyDocument document (·.unsubscribe tracker))
  Act.ofExcept result

/-- Runs an act in the target context: in it, in a draft of it, or once per selection. -/
def inTarget (flags : ContextFlags) (body : Act Scene Unit) : Act Scene Unit := do
  if !flags.draft then body
  else if !flags.itersel then inDraft body
  else
    let s ← get
    inDraft (withTracker s.context.document s.selections fun tracker =>
      eachSelection s.context.document tracker body (List.range s.selections.length))

/-- The other client that the flags ask for, and whether there is no way around it. -/
def requestedClient (s : Scene) (flags : ContextFlags) : Option (String × Bool) :=
  let request := match flags.client, flags.tryClient with
    | some name, _ => some (name, true)
    | none, some name => some (name, false)
    | none, none => none
  request.filter fun (name, _) => name ≠ s.context.name

/-- Checks out the context of another client if the flags ask for one. -/
def borrowClient (flags : ContextFlags) : Act Scene (Option (String × Context)) := do
  let s ← get
  match s.requestedClient flags with
  | none => return none
  | some (name, required) =>
    match s.editor.clients.checkout name with
    | .ok (other, clients) =>
      set { s with editor := { s.editor with clients } }
      return some (name, other)
    | .error e => if required then throw e else return none

/-- Runs an act in a context checked out as that client, and puts the context back. -/
def inClient (name : String) (other : Context) (act : Act Scene Unit) : Act Scene Unit := do
  let s ← get
  let (result, t) := act.perform ⟨s.editor, other⟩
  set { s with editor :=
    (t.editor.checkin name t.context.forgetDrawing).jot (.visited name) }
  Act.ofExcept result

/-- Runs an act where the flags say. -/
def route (flags : ContextFlags) (body : Act Scene Unit) : Act Scene Unit := do
  if let .error e := flags.validate then throw (.ofParamError e)
  match ← borrowClient flags with
  | some (name, other) => inClient name other (inTarget flags body)
  | none => inTarget flags body

end ModalEdit.Scene
