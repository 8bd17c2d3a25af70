import ModalEdit.Editor.Execution
import ModalEdit.Proofs.EditSteps
import ModalEdit.Proofs.Passes

/-!
# What a command line can do

`Moves s t` has one constructor for each thing that a command can do to an editor and to the context
that it runs in. What happens in a draft, in a context on a new document, or in the context of
another client is a move that has moves inside. Command lines make nothing but moves
(`moving_execute`), whatever commands, hooks and keys they come to.

So what every move keeps, every command line keeps, and nothing else about commands has to be known
for that. What sets some moves apart from others is in the journal, which every move continues
(`Moves.journal_eq`).
-/

namespace ModalEdit

open Act Text

/-- The editor with a new document in its store, and a table of documents that knows it. -/
def Editor.creating (e : Editor) (documents : NameMap Nat) (name text : String) : Editor :=
  { e with documents, store := e.store ++ [Document.ofText name text] }

/-- The editor with a document that has stopped recording, unless something has failed. -/
def Editor.muted (e : Editor) (id : Nat) (failed : Bool) : Editor :=
  e.modifyDocument id fun d => { d with noUndo := d.noUndo || !failed }

theorem Editor.muted_true (e : Editor) (id : Nat) : e.muted id true = e := by
  rcases Nat.lt_or_ge id e.store.length with hid | hid
  · simp only [muted, modifyDocument, Bool.not_true, Bool.or_false]
    exact e.setDocument_self hid
  · rw [muted, modifyDocument, setDocument, List.set_eq_of_length_le hid]

theorem Editor.muted_false (e : Editor) (id : Nat) :
    e.muted id false = e.modifyDocument id fun d => { d with noUndo := true } := by
  simp only [muted, Bool.not_false, Bool.or_true]

theorem Editor.document_creating {e : Editor} {id : Nat} (h : id < e.store.length)
    (documents : NameMap Nat) (name text : String) :
    (e.creating documents name text).document id = e.document id := by
  rw [document, document, creating, List.getD_eq_getElem?_getD, List.getElem?_append_left h,
    ← List.getD_eq_getElem?_getD]

theorem Editor.noUndo_setDocument {e : Editor} {id : Nat} {d : Document}
    (h : d.noUndo = (e.document id).noUndo) (other : Nat) :
    ((e.setDocument id d).document other).noUndo = (e.document other).noUndo := by
  rw [document_setDocument]
  split
  next hid => rw [h, hid.1]
  next => rfl

/-- **`note.IsRewrite document`** — a key took a step of the document back or made one again. -/
def Happening.IsRewrite (document : Nat) : Happening → Prop
  | .undone other | .redone other => other = document
  | _ => False

/-- **`note.IsStray`** — insert mode was left, or an edition ended, where there was none. -/
def Happening.IsStray : Happening → Prop
  | .strayEscape | .strayEnd => True
  | _ => False

/-- **`e.since e'`** — what the journal of `e'` tells beyond that of `e`. -/
def Editor.since (e e' : Editor) : List Happening := e'.journal.drop e.journal.length

theorem Editor.since_eq {e e' : Editor} {happened : List Happening}
    (h : e'.journal = e.journal ++ happened) : e.since e' = happened := by
  rw [since, h, List.drop_left]

theorem Editor.since_append {e between e' : Editor}
    (h : between.journal = e.journal ++ e.since between)
    (h' : e'.journal = between.journal ++ between.since e') :
    e.since e' = e.since between ++ between.since e' := by
  refine since_eq ?_
  rw [h', h, List.append_assoc]

/-- What is told in the middle is told in all. -/
theorem Editor.since_subset {e e' f f' : Editor} (hstart : e.journal = e'.journal)
    (more : List Happening) (hstop : f'.journal = f.journal ++ more) :
    e.since f ⊆ e'.since f' := by
  rw [since, since, hstop, hstart, List.drop_append]
  exact List.subset_append_left _ _

theorem Editor.journal_checkin (e : Editor) (name : String) (c : Context) :
    (e.checkin name c).journal = e.journal := by
  unfold checkin
  dsimp only
  split <;> rfl

/-- The end of a visit to another client is told. -/
theorem Editor.journal_visited (e : Editor) (name : String) (c : Context) :
    ((e.checkin name c).jot (.visited name)).journal = e.journal ++ [.visited name] :=
  congrArg (· ++ [_]) (e.journal_checkin name c)

/-- Renaming a document changes a name in the table and in that document. -/
theorem Editor.renameDocument_eq {e e' : Editor} {source target : String}
    (h : e.renameDocument source target = .ok e') :
    ∃ documents id, e.documents.rename source target = .ok documents ∧
      e' = ({ e with documents } : Editor).modifyDocument id fun d => { d with name := target } := by
  unfold renameDocument at h
  split at h
  · cases h
  next documents hrename =>
    dsimp only at h
    cases hnamed : ({ e with documents } : Editor).documentNamed target with
    | error error =>
      rw [hnamed] at h
      cases h
    | ok id =>
      rw [hnamed] at h
      exact ⟨documents, id, hrename, (Except.ok.inj h).symm⟩

namespace Scene

/-! ## Steps of a context -/

/-- The scene when an edition has begun. -/
def begun (s : Scene) : Scene :=
  { s with context := { s.context with editionLevel := s.context.editionLevel + 1 } }

/-- The scene when an edition has ended; if it was the outermost one, the undo step is closed. -/
def ended (s : Scene) : Scene :=
  let context := { s.context with editionLevel := s.context.editionLevel - 1 }
  if context.editionLevel = 0 ∧ context.undoEnabled then
    ⟨s.editor.modifyDocument context.document (·.commit), context⟩
  else { s with context }

/-- The scene when an edition is about to end: the journal tells if none is open. -/
def checked (s : Scene) : Scene :=
  if s.context.editionLevel = 0 then { s with editor := s.editor.jot .strayEnd } else s

theorem checked_of_editing {s : Scene} (h : 0 < s.context.editionLevel) : s.checked = s :=
  if_neg h.ne'

/-- The scene when insert mode is about to be left: the journal tells if it has been left. -/
def escaping (s : Scene) : Scene :=
  if s.context.mode = .insert then s else { s with editor := s.editor.jot .strayEscape }

theorem ended_of_open {s : Scene}
    (h : ¬(s.context.editionLevel - 1 = 0 ∧ s.context.undoEnabled = true)) :
    s.ended = { s with
      context := { s.context with editionLevel := s.context.editionLevel - 1 } } :=
  if_neg h

theorem ended_of_last {s : Scene} (hlast : s.context.editionLevel - 1 = 0)
    (henabled : s.context.undoEnabled = true) :
    s.ended = ⟨s.editor.modifyDocument s.context.document (·.commit),
      { s.context with editionLevel := s.context.editionLevel - 1 }⟩ :=
  if_pos ⟨hlast, henabled⟩

theorem context_ended (s : Scene) :
    s.ended.context = { s.context with editionLevel := s.context.editionLevel - 1 } := by
  unfold ended
  dsimp only
  split <;> rfl

/-- The scene in the input mode, typing on that side of the selections. -/
def turned (s : Scene) (mode : KeymapMode) (insertPosition : InsertPosition) : Scene :=
  { s with context := { s.context with mode, insertPosition } }

/-- The scene with the document of the context replaced, which the journal tells of. -/
def rewritten (s : Scene) (happening : Happening) (d : Document) : Scene :=
  { s with editor := (s.editor.jot happening).setDocument s.context.document d }

/-- The scene of the context in which hooks run on a document that is created. -/
def opening (s : Scene) (documents : NameMap Nat) (name text : String) : Scene :=
  let e := s.editor.creating documents name text
  let (context, e) := e.newContext name s.editor.store.length none default
  ⟨e, context⟩

/-- What the journal says when the context renames its client. -/
def renameNote (s : Scene) : Happening :=
  .renamed s.context.window.isSome (s.editor.clients.isOut s.context.name)

/-- **`s.Revises place tables`** — commands may replace the tables at a place by these. Of the options
there, one is set to a value of the type that it has in effect, or declared where there is none of
its name; everything else is free to change as long as the options stay. -/
inductive Revises (s : Scene) : Site → ScopeTables → Prop
  | aside {place : Site} {tables : ScopeTables} :
    tables.options = (s.tablesAt place).options → Revises s place tables
  | assign {scope : Scope} {place : Site} {name : String} {base value : OptionValue} :
    s.site scope = .ok place →
      (s.tablesAt place).options.base name (s.inheritedOption? scope name) = .ok base →
      value.type = base.type →
      Revises s place
        { s.tablesAt place with options := (s.tablesAt place).options.set name value }
  | declare {name : String} {value : OptionValue} {hidden : Bool} {options : OptionStore} :
    s.editor.scopes.options.declare name value hidden = .ok options →
      Revises s .editor { s.editor.scopes with options }

/-! ## Moves -/

/-- **`Moves s t`** — the steps of commands lead from `s` to `t`. -/
inductive Moves : Scene → Scene → Prop
  | refl (s : Scene) : Moves s s
  | trans {s t u : Scene} : Moves s t → Moves t u → Moves s u
  /-- What is neither document, client nor table. -/
  | note {s : Scene} (registers : Registers) (commands : NameMap Command)
      (definedHighlighters : HighlighterGroup Highlighter) (status : List StatusMessage)
      (shellCalls : List ShellCall) (fileReads : List String) :
    Moves s { s with
      editor := { s.editor with
        registers, commands, definedHighlighters, status, shellCalls, fileReads } }
  | tables {s : Scene} (place : Site) (tables : ScopeTables) :
    s.Revises place tables → Moves s (s.setTablesAt place tables)
  | begin (s : Scene) : Moves s s.begun
  | finish (s : Scene) : Moves s s.ended
  | turn (s : Scene) (mode : KeymapMode) (position : InsertPosition) :
    Moves s (s.turned mode position)
  | stray (s : Scene) {note : Happening} : note.IsStray →
    Moves s { s with editor := s.editor.jot note }
  | type {s : Scene} {d : Document} (id : Nat) :
    (s.editor.document id).Typed d → Moves s { s with editor := s.editor.setDocument id d }
  /-- A line of debug output has been typed. -/
  | tell (s : Scene) (id : Nat) :
    Moves s { s with editor := s.editor.jot (.debugged id (!(s.editor.document id).noUndo)) }
  | undo (s : Scene) : Moves s (s.rewritten (.undone s.context.document) s.document.undo.2)
  | redo (s : Scene) : Moves s (s.rewritten (.redone s.context.document) s.document.redo.2)
  /-- The context gets a single selection. -/
  | select {s : Scene} (x : Selection) :
    Moves s { s with
      editor := s.editor.setDocument s.context.document
        (s.document.giving s.context.tracker (.single (x.map (clamp s.document.text)))) }
  | retitle {s : Scene} {source target : String} {e : Editor} :
    s.editor.renameDocument source target = .ok e → Moves s { s with editor := e }
  | rename {s : Scene} {name : String} {clients : Clients} :
    s.editor.clients.rename s.context.name name = .ok clients →
      Moves s ⟨{ s.editor with clients }.jot s.renameNote, { s.context with name }⟩
  /-- A document is created, and hooks run on it. -/
  | create {s t : Scene} {name : String} {documents : NameMap Nat} (text : String) :
    s.editor.documents.insert name s.editor.store.length = .ok documents →
      Moves (s.opening documents name text) t →
      Moves s { s with editor := t.editor.release t.context }
  /-- A document for debug output is created, and hooks run on it: unless they fail it then stops
  recording. -/
  | mute {s t : Scene} {name : String} {documents : NameMap Nat} (text : String) (failed : Bool) :
    s.editor.documents.insert name s.editor.store.length = .ok documents →
      Moves (s.opening documents name text) t →
      Moves s { s with
        editor := ((t.editor.release t.context).muted s.editor.store.length failed).jot
          (.debugOpened s.editor.store.length failed) }
  /-- Something happens in a draft of the context. -/
  | draft {s t : Scene} :
    Moves s.drafted t →
      Moves s { s with
        editor := (t.editor.release t.context).jot
          (.drafted s.context.document s.context.isEditing) }
  /-- Something happens while a tracker is held. -/
  | tracking {s t : Scene} (id : Nat) (l : SelectionList) :
    Moves (s.tracking id l) t →
      Moves s { t with
        editor := t.editor.modifyDocument id
          (·.unsubscribe (s.editor.document id).nextListener) }
  /-- Something happens in the context of another client. -/
  | client {s t : Scene} {name : String} {other : Context} {clients : Clients} :
    s.editor.clients.checkout name = .ok (other, clients) →
      Moves ⟨{ s.editor with clients }, other⟩ t →
      Moves s { s with
        editor := (t.editor.checkin name t.context.forgetDrawing).jot (.visited name) }

/-- Moves leave the context on its document and with its tracker. -/
theorem Moves.context_eq {s t : Scene} (h : Moves s t) :
    t.context.document = s.context.document ∧ t.context.tracker = s.context.tracker := by
  induction h with
  | trans _ _ ih ih' => exact ⟨ih'.1.trans ih.1, ih'.2.trans ih.2⟩
  | tables place tables => cases place <;> exact ⟨rfl, rfl⟩
  | finish =>
    rw [context_ended]
    exact ⟨rfl, rfl⟩
  | tracking _ _ _ ih => exact ih
  | _ => exact ⟨rfl, rfl⟩

/-! ## The journal -/

@[simp] theorem journal_ended (s : Scene) : s.ended.editor.journal = s.editor.journal := by
  unfold ended
  dsimp only
  split <;> rfl

theorem journal_setTablesAt (s : Scene) (place : Site) (tables : ScopeTables) :
    (s.setTablesAt place tables).editor.journal = s.editor.journal := by
  cases place <;> rfl

theorem clients_setTablesAt (s : Scene) (place : Site) (tables : ScopeTables) :
    (s.setTablesAt place tables).editor.clients = s.editor.clients := by
  cases place <;> rfl

/-- **`s.since t`** — what the journal of `t` tells beyond that of `s`. -/
def since (s t : Scene) : List Happening := s.editor.since t.editor

theorem since_eq {s t : Scene} {happened : List Happening}
    (h : t.editor.journal = s.editor.journal ++ happened) : s.since t = happened :=
  Editor.since_eq h

/-- Every move continues the journal. -/
theorem Moves.journal_eq {s t : Scene} (h : Moves s t) :
    t.editor.journal = s.editor.journal ++ s.since t := by
  suffices ∃ happened, t.editor.journal = s.editor.journal ++ happened by
    obtain ⟨happened, hjournal⟩ := this
    rw [since_eq hjournal, hjournal]
  induction h with
  | refl s => exact ⟨[], (List.append_nil _).symm⟩
  | trans _ _ ih ih' =>
    obtain ⟨first, hfirst⟩ := ih
    obtain ⟨later, hlater⟩ := ih'
    exact ⟨first ++ later, by rw [hlater, hfirst, List.append_assoc]⟩
  | undo s => exact ⟨[_], rfl⟩
  | redo s => exact ⟨[_], rfl⟩
  | rename _ => exact ⟨[_], rfl⟩
  | stray | tell => exact ⟨[_], rfl⟩
  | tables place tables => exact ⟨[], by rw [journal_setTablesAt, List.append_nil]⟩
  | finish s => exact ⟨[], by rw [journal_ended, List.append_nil]⟩
  | retitle hrename =>
    obtain ⟨documents, id, -, rfl⟩ := Editor.renameDocument_eq hrename
    exact ⟨[], (List.append_nil _).symm⟩
  | note | begin | turn | type | select => exact ⟨[], (List.append_nil _).symm⟩
  | create _ _ _ ih => exact ih
  | @mute s t _ _ _ failed _ _ ih =>
    obtain ⟨happened, hinner⟩ := ih
    refine ⟨happened ++ [.debugOpened s.editor.store.length failed], ?_⟩
    rw [← List.append_assoc]
    exact congrArg (· ++ [_]) hinner
  | tracking _ _ _ ih => exact ih
  | @draft s t _ ih =>
    obtain ⟨happened, hinner⟩ := ih
    refine ⟨happened ++ [.drafted s.context.document s.context.isEditing], ?_⟩
    rw [← List.append_assoc]
    exact congrArg (· ++ [_]) hinner
  | @client s t name other clients _ _ ih =>
    obtain ⟨happened, hinner⟩ := ih
    refine ⟨happened ++ [.visited name], ?_⟩
    rw [← List.append_assoc, Editor.journal_visited]
    exact congrArg (· ++ [_]) hinner

theorem Moves.since_trans {s t u : Scene} (h : Moves s t) (h' : Moves t u) :
    s.since u = s.since t ++ t.since u :=
  Editor.since_append h.journal_eq h'.journal_eq

/-- What is told at the end is told in all. -/
theorem Moves.mem_since {s t u v : Scene} {note : Happening} (h : Moves s t)
    (hstart : s.editor.journal = u.editor.journal)
    (hstop : v.editor.journal = t.editor.journal ++ [note]) : note ∈ u.since v := by
  have hsince : u.since v = s.since t ++ [note] := by
    refine since_eq ?_
    rw [hstop, h.journal_eq, hstart, List.append_assoc]
  rw [hsince]
  exact List.mem_append_right _ (List.mem_singleton_self _)

end Scene

end ModalEdit
