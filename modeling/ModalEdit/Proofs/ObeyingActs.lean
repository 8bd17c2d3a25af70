import ModalEdit.Proofs.CommandMoves
import ModalEdit.Proofs.NamedEntries

/-!
# Relations that acts obey

An act obeys a relation between scenes if it leads along it, whether it fails or not. `Admits R`
lists what acts do besides opening and closing editions and changing the input mode, and asks of the
relation `R` to lead along all of that. So then do the acts that are put together from it: what a
context does, drafts and other clients, and what runs further command lines: hooks, and the writing
of debug output, whose document may have to be created first. What keys do is cut down to the three
acts that deal with editions (`obeys_normalKey`, `obeys_insertKey`).
-/

namespace ModalEdit.Scene

open Act Text

/-- **`Admits R`** — `R` leads along whatever acts do to an editor and to the context that they run
in, except for editions and the input mode. -/
class Admits (R : Scene → Scene → Prop) : Prop where
  refl (s : Scene) : R s s
  trans {s t u : Scene} : R s t → R t u → R s u
  note {s : Scene} (registers : Registers) (commands : NameMap Command)
    (definedHighlighters : HighlighterGroup Highlighter) (status : List StatusMessage)
    (shellCalls : List ShellCall) (fileReads : List String) :
    R s { s with
      editor := { s.editor with
        registers, commands, definedHighlighters, status, shellCalls, fileReads } }
  tables {s : Scene} (place : Site) (tables : ScopeTables) :
    s.Revises place tables → R s (s.setTablesAt place tables)
  type {s : Scene} {d : Document} (id : Nat) :
    (s.editor.document id).Typed d → R s { s with editor := s.editor.setDocument id d }
  tell (s : Scene) (id : Nat) :
    R s { s with editor := s.editor.jot (.debugged id (!(s.editor.document id).noUndo)) }
  undo (s : Scene) : R s (s.rewritten (.undone s.context.document) s.document.undo.2)
  redo (s : Scene) : R s (s.rewritten (.redone s.context.document) s.document.redo.2)
  select {s : Scene} (x : Selection) :
    R s { s with
      editor := s.editor.setDocument s.context.document
        (s.document.giving s.context.tracker (.single (x.map (clamp s.document.text)))) }
  retitle {s : Scene} {source target : String} {e : Editor} :
    s.editor.renameDocument source target = .ok e → R s { s with editor := e }
  rename {s : Scene} {name : String} {clients : Clients} :
    s.editor.clients.rename s.context.name name = .ok clients →
      R s ⟨{ s.editor with clients }.jot s.renameNote, { s.context with name }⟩
  create {s t : Scene} {name : String} {documents : NameMap Nat} (text : String) :
    s.editor.documents.insert name s.editor.store.length = .ok documents →
      R (s.opening documents name text) t →
      R s { s with editor := t.editor.release t.context }
  mute {s t : Scene} {name : String} {documents : NameMap Nat} (text : String) (failed : Bool) :
    s.editor.documents.insert name s.editor.store.length = .ok documents →
      R (s.opening documents name text) t →
      R s { s with
        editor := ((t.editor.release t.context).muted s.editor.store.length failed).jot
          (.debugOpened s.editor.store.length failed) }
  draft {s t : Scene} :
    R s.drafted t →
      R s { s with
        editor := (t.editor.release t.context).jot
          (.drafted s.context.document s.context.isEditing) }
  tracking {s t : Scene} (id : Nat) (l : SelectionList) :
    R (s.tracking id l) t →
      R s { t with
        editor := t.editor.modifyDocument id
          (·.unsubscribe (s.editor.document id).nextListener) }
  client {s t : Scene} {name : String} {other : Context} {clients : Clients} :
    s.editor.clients.checkout name = .ok (other, clients) →
      R ⟨{ s.editor with clients }, other⟩ t →
      R s { s with
        editor := (t.editor.checkin name t.context.forgetDrawing).jot (.visited name) }

/-- **`Obeys R act`** — the act leads along `R`, whether it fails or not. -/
def Obeys {α : Type} (R : Scene → Scene → Prop) (act : Act Scene α) : Prop :=
  ∀ s, R s (act.perform s).2

variable {R : Scene → Scene → Prop} [Admits R]

/-! ## Acts that are put together -/

section Combining

variable {α β : Type}

theorem obeys_pure (a : α) : Obeys R (pure a : Act Scene α) := Admits.refl

theorem obeys_throw (e : CommandError) : Obeys R (throw e : Act Scene α) := Admits.refl

theorem obeys_get : Obeys R (get : Act Scene Scene) := Admits.refl

theorem obeys_ofExcept (result : Except CommandError α) : Obeys R (Act.ofExcept result) := by
  intro s
  rw [perform_ofExcept]
  exact Admits.refl s

theorem obeys_ofRegistry (result : Except RegistryError α) : Obeys R (Act.ofRegistry result) := by
  unfold Act.ofRegistry
  split
  · exact obeys_pure _
  · exact obeys_throw _

theorem leads_bind {act : Act Scene α} {f : α → Act Scene β} {s : Scene}
    (h : R s (act.perform s).2) (h' : ∀ a, Obeys R (f a)) : R s ((act >>= f).perform s).2 := by
  rw [perform_bind]
  split
  next a t hperform =>
    rw [hperform] at h
    exact Admits.trans h (h' a t)
  next e t hperform =>
    rw [hperform] at h
    exact h

theorem Obeys.bind {act : Act Scene α} {f : α → Act Scene β} (h : Obeys R act)
    (h' : ∀ a, Obeys R (f a)) : Obeys R (act >>= f) :=
  fun s => leads_bind (h s) h'

omit [Admits R] in
/-- An act that begins by looking at the scene. -/
theorem obeys_get_bind {f : Scene → Act Scene β} (h : ∀ s, R s ((f s).perform s).2) :
    Obeys R (get >>= f) := by
  intro s
  rw [perform_bind_ok (perform_get s)]
  exact h s

omit [Admits R] in
theorem Obeys.mono {R' : Scene → Scene → Prop} {act : Act Scene α} (h : Obeys R act)
    (hR : ∀ {s t}, R s t → R' s t) : Obeys R' act :=
  fun s => hR (h s)

omit [Admits R] in
theorem Obeys.attempt {act : Act Scene α} (h : Obeys R act) : Obeys R act.attempt := h

theorem obeys_forM {items : List α} {f : α → Act Scene Unit} (h : ∀ a, Obeys R (f a)) :
    Obeys R (items.forM f) := by
  induction items with
  | nil => exact obeys_pure _
  | cons a items ih => exact (h a).bind fun _ => ih

theorem obeys_mapM {items : List α} {f : α → Act Scene β} (h : ∀ a, Obeys R (f a)) :
    Obeys R (items.mapM f) := by
  induction items with
  | nil => exact obeys_pure _
  | cons a items ih =>
    rw [List.mapM_cons]
    exact (h a).bind fun _ => ih.bind fun _ => obeys_pure _

omit [Admits R] in
theorem obeys_onEditor {act : Act Editor α}
    (h : ∀ s : Scene, R s { s with editor := (act.perform s.editor).2 }) :
    Obeys R (onEditor act) := by
  intro s
  rw [perform_onEditor]
  exact h s

end Combining

/-! ## Acts of a context -/

theorem obeys_print (text : String) : Obeys R (print text) :=
  fun s => Admits.note s.editor.registers s.editor.commands s.editor.definedHighlighters _
    s.editor.shellCalls s.editor.fileReads

theorem perform_edit {α : Type} (f : Document → Except SelectionError α × Document) (s : Scene) :
    (edit f).perform s =
      ((f s.document).1.mapError CommandError.invalidSelections,
        { s with editor := s.editor.setDocument s.context.document (f s.document).2 }) := by
  rw [edit, perform_bind_ok (perform_get s)]
  rcases f s.document with ⟨_ | _, d⟩ <;> rfl

theorem obeys_edit {α : Type} {f : Document → Except SelectionError α × Document}
    (h : ∀ d : Document, d.Types (f d)) : Obeys R (edit f) := by
  intro s
  rw [perform_edit]
  exact Admits.type s.context.document (h s.document).typed

theorem obeys_setSelections_single (x : Selection) : Obeys R (setSelections (.single x)) := by
  intro s
  rw [perform_setSelections_single]
  exact Admits.select x

theorem perform_beginEdition (s : Scene) : beginEdition.perform s = (.ok (), s.begun) := rfl

theorem perform_endEdition (s : Scene) : endEdition.perform s = (.ok (), s.checked.ended) := by
  have hended : ∀ t : Scene, (do
      modifyContext fun c => { c with editionLevel := c.editionLevel - 1 }
      let s ← get
      if s.context.editionLevel = 0 ∧ s.context.undoEnabled then
        set { s with editor := s.editor.modifyDocument s.context.document (·.commit) } :
        Act Scene Unit).perform t = (.ok (), t.ended) := by
    intro t
    rw [perform_bind_ok (perform_modifyContext _ t), perform_bind_ok (perform_get _), ended]
    dsimp only
    split <;> rfl
  rw [endEdition, perform_bind_ok (perform_get s), checked]
  split
  · rw [perform_bind_ok (perform_modifyEditor _ s)]
    exact hended _
  · exact hended s

theorem obeys_setRegister (name : Char) (values : List String) :
    Obeys R (setRegister name values) := by
  refine obeys_get.bind fun _ => (obeys_ofExcept _).bind ?_
  intro _
  exact fun s => Admits.note _ s.editor.commands s.editor.definedHighlighters s.editor.status
    s.editor.shellCalls s.editor.fileReads

theorem obeys_insert (texts : List String) (position : InsertPosition) :
    Obeys R (insert texts position) :=
  obeys_get.bind fun _ => obeys_edit fun d => d.types_insertAll _ texts position

theorem obeys_erase : Obeys R erase :=
  obeys_get.bind fun _ => obeys_edit fun d => d.types_eraseAll _

theorem obeys_eraseBefore : Obeys R eraseBefore :=
  obeys_get.bind fun _ => obeys_edit fun d => d.types_eraseBeforeAll _

/-- Tables are changed as commands may change them in this scene. -/
theorem leads_updateTables {α : Type} {s : Scene} {scope : Scope}
    {f : ScopeTables → Except RegistryError (α × ScopeTables)}
    (h : ∀ place found, s.site scope = .ok place → f (s.tablesAt place) = .ok found →
      s.Revises place found.2) :
    R s ((updateTables scope f).perform s).2 := by
  rw [perform_updateTables]
  cases hplace : s.site scope with
  | error e => exact Admits.refl s
  | ok place =>
    dsimp only
    cases hf : f (s.tablesAt place) with
    | error e => exact Admits.refl s
    | ok found => exact Admits.tables place found.2 (h place found hplace hf)

/-- Tables are changed, but for the options. -/
theorem obeys_updateTables {α : Type} {scope : Scope}
    {f : ScopeTables → Except RegistryError (α × ScopeTables)}
    (h : ∀ tables found, f tables = .ok found → found.2.options = tables.options) :
    Obeys R (updateTables scope f) :=
  fun _ => leads_updateTables fun _ _ _ hf => .aside (h _ _ hf)

/-! ## Keys -/

theorem obeys_yankSelections : Obeys R yankSelections :=
  obeys_get.bind fun _ => obeys_setRegister _ _

/-- Taking a step back and making it again are the same but for the edit and for what is told. -/
theorem obeys_rewrite (happening : Context → Happening)
    (f : Document → Except SelectionError Bool × Document) (text : String)
    (h : ∀ s : Scene, R s (s.rewritten (happening s.context) (f s.document).2)) :
    Obeys R (do
      let s ← get
      modifyEditor (·.jot (happening s.context))
      unless ← edit f do print text) := by
  refine obeys_get_bind ?_
  intro s
  have hedit : (edit f).perform { s with editor := s.editor.jot (happening s.context) } =
      ((f s.document).1.mapError CommandError.invalidSelections,
        s.rewritten (happening s.context) (f s.document).2) := perform_edit _ _
  rw [perform_bind_ok (perform_modifyEditor _ s), perform_bind, hedit]
  cases (f s.document).1 with
  | error e => exact h s
  | ok did =>
    cases did with
    | true => exact h s
    | false => exact Admits.trans (h s) (obeys_print text _)

theorem obeys_undo : Obeys R undo :=
  obeys_rewrite (fun c => .undone c.document) Document.undo _ Admits.undo

theorem obeys_redo : Obeys R redo :=
  obeys_rewrite (fun c => .redone c.document) Document.redo _ Admits.redo

/-- Keys in normal mode enter insert mode, or edit. -/
theorem obeys_normalKey (hedition : ∀ act : Act Scene Unit, Obeys R act → Obeys R (inEdition act))
    (key : Key) :
    (∃ position, normalKey key = enterInsertMode position) ∨ Obeys R (normalKey key) := by
  have hpaste : ∀ position, Obeys R (paste position) := fun position =>
    obeys_get.bind fun _ => hedition _ (obeys_insert _ position)
  unfold normalKey
  split
  next c _ =>
    unfold normalCommand
    split
    · exact .inl ⟨.before, rfl⟩
    · exact .inl ⟨.after, rfl⟩
    · exact .inr obeys_yankSelections
    · exact .inr (obeys_yankSelections.bind fun _ => hedition _ obeys_erase)
    · exact .inr (hpaste .after)
    · exact .inr (hpaste .before)
    · exact .inr obeys_undo
    · exact .inr obeys_redo
    · exact .inr (obeys_pure _)
  · exact .inr (obeys_pure _)

theorem obeys_typeText (text : String) : Obeys R (typeText text) :=
  obeys_get.bind fun _ => obeys_insert _ _

/-- Keys in insert mode leave it, or edit. -/
theorem obeys_insertKey (key : Key) :
    insertKey key = leaveInsertMode ∨ Obeys R (insertKey key) := by
  unfold insertKey
  split
  · exact .inr (obeys_pure _)
  · split
    · exact .inl rfl
    · exact .inr obeys_eraseBefore
    · exact .inr (obeys_typeText _)
    · exact .inr (obeys_typeText _)
    · exact .inr (obeys_typeText _)
    · exact .inr (obeys_pure _)

theorem obeys_echoKey (key : Key) : Obeys R (echoKey key) := by
  unfold echoKey
  split
  · exact obeys_throw _
  · exact obeys_get.bind fun _ => obeys_print _

theorem obeys_press {run : Runner} (h : ∀ key, Obeys R (pressUnmapped run key)) (key : Key) :
    Obeys R (press run key) := by
  refine obeys_get.bind ?_
  intro s
  split
  · exact obeys_forM h
  · exact h key

/-! ## Drafts and other clients -/

theorem obeys_eachSelection (document tracker : Nat) {body : Act Scene Unit} (h : Obeys R body)
    (indices : List Nat) : Obeys R (eachSelection document tracker body indices) := by
  induction indices with
  | nil => exact obeys_pure _
  | cons index rest ih =>
    refine obeys_get.bind ?_
    intro s
    split
    · exact obeys_pure _
    · exact (obeys_setSelections_single _).bind fun _ => h.bind fun _ => ih

theorem obeys_inDraft {act : Act Scene Unit} (h : Obeys R act) : Obeys R (inDraft act) := by
  intro s
  rw [perform_inDraft]
  exact Admits.draft (h s.drafted)

theorem obeys_withTracker (document : Nat) (selections : SelectionList)
    {act : Nat → Act Scene Unit} (h : ∀ tracker, Obeys R (act tracker)) :
    Obeys R (withTracker document selections act) := by
  intro s
  rw [perform_withTracker]
  exact Admits.tracking document selections (h _ (s.tracking document selections))

theorem obeys_inTarget (flags : ContextFlags) {body : Act Scene Unit} (h : Obeys R body) :
    Obeys R (inTarget flags body) := by
  unfold inTarget
  split
  · exact h
  · split
    · exact obeys_inDraft h
    · exact obeys_get.bind fun s => obeys_inDraft
        (obeys_withTracker _ _ fun _ => obeys_eachSelection _ _ h _)

theorem obeys_route (flags : ContextFlags) {body : Act Scene Unit} (h : Obeys R body) :
    Obeys R (route flags body) := by
  unfold route
  split
  · exact obeys_throw _
  intro s
  dsimp only
  rw [perform_bind, perform_borrowClient]
  cases s.requestedClient flags with
  | none => exact obeys_inTarget flags h s
  | some request =>
    dsimp only
    cases hcheckout : s.editor.clients.checkout request.1 with
    | ok found =>
      dsimp only
      rw [perform_inClient]
      exact Admits.client hcheckout (obeys_inTarget flags h _)
    | error e =>
      cases request.2 with
      | true => exact Admits.refl s
      | false => exact obeys_inTarget flags h s

/-! ## Acts that run command lines -/

section Running

variable {run : Runner} (hrun : ∀ env line, Obeys R (run env line))

include hrun

theorem obeys_runHook (event param : String) : Obeys R (runHook run event param) := by
  refine obeys_get.bind fun _ => obeys_forM ?_
  intro body
  cases body with
  | commands line => exact hrun _ _
  | notice text fails =>
    refine (obeys_print _).bind ?_
    intro _
    split
    · exact obeys_throw _
    · exact obeys_pure _

omit hrun in
theorem perform_fire (name : String) (document : Nat) (event param : String) (e : Editor) :
    (Editor.fire run name document event param).perform e =
      let opened := e.newContext name document none default
      let done := (runHook run event param).perform ⟨opened.2, opened.1⟩
      (done.1, done.2.editor.release done.2.context) := by
  unfold Editor.fire
  rw [perform_bind_ok (perform_get e)]
  dsimp only
  rw [perform_bind_ok (perform_set e _), perform_inPassing]

omit hrun in
/-- What creating a document comes to, when its name is free: hooks run on it. -/
theorem perform_createDocument {s : Scene} {name : String} {documents : NameMap Nat}
    (hinsert : s.editor.documents.insert name s.editor.store.length = .ok documents)
    (text : String) :
    (Editor.createDocument run name text).perform s.editor =
      let done := (runHook run "BufCreate" name).perform (s.opening documents name text)
      (done.1.map fun _ => s.editor.store.length, done.2.editor.release done.2.context) := by
  unfold Editor.createDocument
  rw [perform_bind_ok (perform_get s.editor)]
  dsimp only
  have hfire : (Editor.fire run name s.editor.store.length "BufCreate" name).perform
      (s.editor.creating documents name text) =
      let done := (runHook run "BufCreate" name).perform (s.opening documents name text)
      (done.1, done.2.editor.release done.2.context) := perform_fire _ _ _ _ _
  rw [Editor.creating] at hfire
  rw [perform_bind, hinsert]
  simp only [ofRegistry, perform_pure, perform_bind, perform_set, hfire]
  cases ((runHook run "BufCreate" name).perform (s.opening documents name text)).1 with
  | ok _ => rfl
  | error e => rfl

omit hrun in
theorem perform_createDocument_of_error {e : Editor} {name : String} {error : RegistryError}
    (hinsert : e.documents.insert name e.store.length = .error error) (text : String) :
    (Editor.createDocument run name text).perform e = (.error (.registry error), e) := by
  unfold Editor.createDocument
  rw [perform_bind_ok (perform_get e)]
  dsimp only
  rw [perform_bind, hinsert]
  rfl

/-- The document for debug output is created, or it is there already. -/
theorem leads_debugDocument (s : Scene) :
    R s { s with editor := ((Editor.debugDocument run).perform s.editor).2 } := by
  unfold Editor.debugDocument
  rw [perform_bind_ok (perform_get s.editor)]
  split
  · exact Admits.refl s
  next hfree =>
    obtain ⟨documents, hinsert⟩ := NameMap.exists_insert hfree s.editor.store.length
    have hhooks := obeys_runHook hrun "BufCreate" Editor.debugName
      (s.opening documents Editor.debugName "")
    rw [perform_bind_ok (perform_attempt _ _), perform_createDocument hinsert]
    dsimp only at hhooks ⊢
    revert hhooks
    -- hooks on the creation have run; only if none failed does the document stop recording
    rcases (runHook run "BufCreate" Editor.debugName).perform
      (s.opening documents Editor.debugName "") with ⟨_ | _, t⟩
    · intro hhooks
      have hfailed := Admits.mute "" true hinsert hhooks
      rw [Editor.muted_true] at hfailed
      exact hfailed
    · intro hhooks
      have hmuted := Admits.mute "" false hinsert hhooks
      rw [Editor.muted_false] at hmuted
      exact hmuted

theorem obeys_writeDebug (text : String) : Obeys R (onEditor (Editor.writeDebug run text)) := by
  refine obeys_onEditor ?_
  intro s
  have hdebug := leads_debugDocument hrun s
  unfold Editor.writeDebug
  rw [perform_bind]
  split
  next id e hperform =>
    rw [hperform] at hdebug
    rw [perform_bind_ok (perform_get e)]
    -- the document is there now, and the line is an insertion at its end
    have htyped := ((e.document id).types_insertText (endCoord (e.document id).text)
      (text ++ "\n").toList).typed
    have hrecorded := (e.document id).history_insertText_ne_iff (endCoord (e.document id).text)
      (text ++ "\n").toList
    refine Admits.trans hdebug ?_
    dsimp only
    generalize (e.document id).insertText (endCoord (e.document id).text)
      (text ++ "\n").toList = done at htyped hrecorded ⊢
    obtain ⟨result, after⟩ := done
    have hnote : decide (after.history ≠ (e.document id).history) =
        !((e.setDocument id after).document id).noUndo := by
      rw [Editor.noUndo_setDocument htyped.noUndo_eq, Bool.eq_iff_iff, decide_eq_true_iff,
        hrecorded, Bool.not_eq_true']
    have hwritten : R ⟨e, s.context⟩ ⟨(e.setDocument id after).jot
        (.debugged id (after.history ≠ (e.document id).history)), s.context⟩ := by
      rw [hnote]
      exact Admits.trans (Admits.type (s := ⟨e, s.context⟩) id htyped)
        (Admits.tell ⟨e.setDocument id after, s.context⟩ id)
    cases result with
    | ok _ => exact hwritten
    | error _ => exact hwritten
  next hperform =>
    rw [hperform] at hdebug
    exact hdebug

end Running

end ModalEdit.Scene
