import ModalEdit.Proofs.WorldCalls

/-!
# Debug output and the history of its document

The document for debug output stops recording once it was created, which is after the hooks that run
on a new document. So lines of debug output are kept out of its history just if these hooks succeed
and write none themselves (`debug_output_is_not_recorded`). If they fail, the document goes on
recording (`recorded_after_failing_hook`); and what they write is recorded (`recorded_in_hook`).

The journal tells when a document is opened for debug output, and of each line whether it was
recorded. What it tells from one editor to a later one suits the documents that there were
(`AllSuit`), and the story of a new one `Unfolds` around its opening. Moves keep such accounts
(`Moves.accounts`), and so do all calls (`accounts_afterCalls`).
-/

namespace ModalEdit

open Act

/-! ## The story of one document -/

/-- **`note.Suits id silent`** — the document is not opened for debug output, and a line in it is
recorded just if it is not silent. -/
def Happening.Suits (id : Nat) (silent : Bool) : Happening → Prop
  | .debugOpened document _ => document ≠ id
  | .debugged document recorded => document = id → recorded = !silent
  | _ => True

/-- **`AllSuit id silent notes`** — all of the notes suit a document that stays silent or not. -/
def AllSuit (id : Nat) (silent : Bool) (notes : List Happening) : Prop :=
  ∀ note ∈ notes, note.Suits id silent

variable {id : Nat} {silent failed : Bool} {notes earlier later before after : List Happening}
  {note : Happening}

theorem AllSuit.nil : AllSuit id silent [] := nofun

theorem AllSuit.one (h : note.Suits id silent) : AllSuit id silent [note] := by
  rintro _ hmem
  obtain rfl := List.mem_singleton.mp hmem
  exact h

theorem AllSuit.append (h : AllSuit id silent earlier) (h' : AllSuit id silent later) :
    AllSuit id silent (earlier ++ later) := by
  intro note hmem
  rcases List.mem_append.mp hmem with hmem | hmem
  · exact h note hmem
  · exact h' note hmem

theorem AllSuit.not_opened (h : AllSuit id silent notes) : .debugOpened id failed ∉ notes :=
  fun hmem => h _ hmem rfl

theorem AllSuit.recorded_eq (h : AllSuit id silent notes) {recorded : Bool}
    (hmem : .debugged id recorded ∈ notes) : recorded = !silent :=
  h _ hmem rfl

/-- **`Unfolds id notes silent`** — the notes tell the story of a new document that is silent in the
end: it records all along, unless it is opened for debug output and no hook fails. -/
inductive Unfolds (id : Nat) : List Happening → Bool → Prop
  | plain {notes : List Happening} : AllSuit id false notes → Unfolds id notes false
  | opened {before after : List Happening} (failed : Bool) :
    AllSuit id false before → AllSuit id (!failed) after →
      Unfolds id (before ++ .debugOpened id failed :: after) (!failed)

theorem Unfolds.append (h : Unfolds id earlier silent) (h' : AllSuit id silent later) :
    Unfolds id (earlier ++ later) silent := by
  cases h with
  | plain hsuit => exact .plain (hsuit.append h')
  | opened failed hbefore hafter =>
    rw [List.append_assoc, List.cons_append]
    exact .opened failed hbefore (hafter.append h')

theorem Unfolds.prepend (h : AllSuit id false earlier) (h' : Unfolds id later silent) :
    Unfolds id (earlier ++ later) silent := by
  cases h' with
  | plain hsuit => exact .plain (h.append hsuit)
  | opened failed hbefore hafter =>
    rw [← List.append_assoc]
    exact .opened failed (h.append hbefore) hafter

/-- A document is opened for debug output once, so the parts before and after that are these. -/
theorem Unfolds.split (h : Unfolds id (before ++ .debugOpened id failed :: after) silent) :
    silent = !failed ∧ AllSuit id false before ∧ AllSuit id (!failed) after := by
  generalize htold : before ++ Happening.debugOpened id failed :: after = told at h
  cases h with
  | plain hsuit =>
    have hmem : Happening.debugOpened id failed ∈ told :=
      htold ▸ List.mem_append_right _ List.mem_cons_self
    exact absurd hmem hsuit.not_opened
  | opened other hfirst hlast =>
    obtain ⟨rfl, hsame, rfl⟩ :=
      (List.append_cons_inj_of_notMem hfirst.not_opened hlast.not_opened).mp htold.symm
    obtain rfl := (Happening.debugOpened.inj hsame).2
    exact ⟨rfl, hfirst, hlast⟩

/-! ## Accounts of all documents -/

namespace Editor

variable {e e' e'' : Editor}

/-- **`e.Accounts e'`** — the journal from `e` to `e'` agrees with which documents record. -/
structure Accounts (e e' : Editor) : Prop where
  journal : e'.journal = e.journal ++ e.since e'
  stored : e.store.length ≤ e'.store.length
  /-- A document that was there stays as silent as it was, and is not opened for debug output. -/
  old : ∀ id < e.store.length, (e'.document id).noUndo = (e.document id).noUndo ∧
    AllSuit id (e.document id).noUndo (e.since e')
  /-- What is told of one that was not there is its story; if it is still not there, nothing is. -/
  new : ∀ id, e.store.length ≤ id → Unfolds id (e.since e') (e'.document id).noUndo ∧
    (e'.store.length ≤ id → AllSuit id false (e.since e'))

theorem noUndo_of_le (h : e.store.length ≤ id) : (e.document id).noUndo = false :=
  congrArg Document.noUndo (document_of_le h)

theorem noUndo_creating (documents : NameMap Nat) (name text : String) (id : Nat) :
    ((e.creating documents name text).document id).noUndo = (e.document id).noUndo := by
  rcases Nat.lt_or_ge id e.store.length with hid | hid
  · rw [document_creating hid]
  · rw [document_of_le hid, document, creating, List.getD_eq_getElem?_getD,
      List.getElem?_append_right hid]
    cases id - e.store.length <;> rfl

/-- No document becomes silent, and what is told suits every one. -/
theorem accounts_of_suit (notes : List Happening)
    (hjournal : e'.journal = e.journal ++ notes)
    (hstored : e.store.length ≤ e'.store.length)
    (hnoUndo : ∀ id, (e'.document id).noUndo = (e.document id).noUndo)
    (hsuit : ∀ id, AllSuit id (e.document id).noUndo notes) : e.Accounts e' := by
  have hsince : e.since e' = notes := since_eq hjournal
  refine ⟨hsince ▸ hjournal, hstored, fun id _ => ⟨hnoUndo id, hsince ▸ hsuit id⟩, ?_⟩
  intro id hid
  have hnotes := hsince ▸ noUndo_of_le hid ▸ hsuit id
  rw [hnoUndo id, noUndo_of_le hid]
  exact ⟨.plain hnotes, fun _ => hnotes⟩

/-- What is beside the documents changes, and nothing is told. -/
theorem accounts_aside (hjournal : e'.journal = e.journal) (hstore : e'.store = e.store) :
    e.Accounts e' :=
  accounts_of_suit [] (hjournal.trans (List.append_nil _).symm)
    (congrArg List.length hstore).ge
    (fun id => congrArg Document.noUndo (document_congr hstore id)) fun _ => .nil

theorem Accounts.refl (e : Editor) : e.Accounts e := accounts_aside rfl rfl

theorem accounts_setDocument (e : Editor) {id : Nat} {d : Document}
    (h : d.noUndo = (e.document id).noUndo) : e.Accounts (e.setDocument id d) :=
  accounts_of_suit [] (List.append_nil _).symm (List.length_set ..).ge
    (noUndo_setDocument h) fun _ => .nil

theorem accounts_track (e : Editor) (id : Nat) (l : SelectionList) :
    e.Accounts (e.setDocument id ((e.document id).track l).2) :=
  e.accounts_setDocument rfl

theorem accounts_release (e : Editor) (c : Context) : e.Accounts (e.release c) :=
  e.accounts_setDocument rfl

theorem accounts_jot (e : Editor) (h : ∀ id, note.Suits id (e.document id).noUndo) :
    e.Accounts (e.jot note) :=
  accounts_of_suit [note] rfl le_rfl (fun _ => rfl) fun id => .one (h id)

theorem accounts_creating (e : Editor) (documents : NameMap Nat) (name text : String) :
    e.Accounts (e.creating documents name text) := by
  refine accounts_of_suit [] (List.append_nil _).symm ?_
    (noUndo_creating documents name text) fun _ => .nil
  rw [creating, List.length_append]
  exact Nat.le_add_right _ _

theorem Accounts.trans (h : e.Accounts e') (h' : e'.Accounts e'') : e.Accounts e'' := by
  have hsince : e.since e'' = e.since e' ++ e'.since e'' := since_append h.journal h'.journal
  constructor
  · rw [hsince, h'.journal, h.journal, List.append_assoc]
  · exact le_trans h.stored h'.stored
  · intro id hid
    obtain ⟨hfirst, hearlier⟩ := h.old id hid
    obtain ⟨hlast, hlater⟩ := h'.old id (lt_of_lt_of_le hid h.stored)
    exact ⟨hlast.trans hfirst, hsince ▸ hearlier.append (hfirst ▸ hlater)⟩
  · intro id hid
    obtain ⟨hstory, hnone⟩ := h.new id hid
    rw [hsince]
    -- a document comes in between, or in the second half, or not at all
    rcases Nat.lt_or_ge id e'.store.length with hthere | hlate
    · obtain ⟨hlast, hlater⟩ := h'.old id hthere
      refine ⟨hlast ▸ hstory.append hlater, fun hbeyond => ?_⟩
      exact absurd hthere (Nat.not_lt.mpr (le_trans h'.stored hbeyond))
    · obtain ⟨hlater, hstill⟩ := h'.new id hlate
      exact ⟨hlater.prepend (hnone hlate), fun hbeyond => (hnone hlate).append (hstill hbeyond)⟩

theorem Accounts.checkin (h : e.Accounts e') (name : String) (c : Context) :
    e.Accounts (e'.checkin name c) := by
  have hkept : e.Accounts { e' with clients := (e'.clients.checkin name c).2 } :=
    h.trans (accounts_aside rfl rfl)
  unfold Editor.checkin
  dsimp only
  split
  · exact hkept.trans (accounts_release _ _)
  · exact hkept

/-! ### The document for debug output -/

theorem noUndo_muted (h : id < e.store.length) (failed : Bool) :
    ((e.muted id failed).document id).noUndo = ((e.document id).noUndo || !failed) := by
  rw [muted, modifyDocument, document_setDocument, if_pos ⟨rfl, h⟩]

theorem document_muted_of_ne {other : Nat} (h : other ≠ id) (failed : Bool) :
    (e.muted id failed).document other = e.document other := by
  rw [muted, modifyDocument, document_setDocument, if_neg fun hsame => h hsame.1]

/-- A new document records, and nothing has told that it was opened for debug output. Now that is
told, and unless hooks have failed on it the document is silenced. -/
theorem Accounts.muted (h : e.Accounts e') (hthere : e.store.length < e'.store.length)
    (hrecording : (e'.document e.store.length).noUndo = false)
    (hsuit : AllSuit e.store.length false (e.since e')) (failed : Bool) :
    e.Accounts ((e'.muted e.store.length failed).jot (.debugOpened e.store.length failed)) := by
  set final := (e'.muted e.store.length failed).jot (.debugOpened e.store.length failed)
  have hjournal : final.journal =
      e.journal ++ (e.since e' ++ [.debugOpened e.store.length failed]) := by
    rw [← List.append_assoc, ← h.journal]
    rfl
  have hsince : e.since final = e.since e' ++ [.debugOpened e.store.length failed] :=
    since_eq hjournal
  have hlength : final.store.length = e'.store.length := List.length_set ..
  -- the other documents stay, and the note suits them, silent or not
  have hothers : ∀ id, id ≠ e.store.length → final.document id = e'.document id :=
    fun id hid => document_muted_of_ne hid failed
  have hnote : ∀ id silent, id ≠ e.store.length →
      AllSuit id silent [.debugOpened e.store.length failed] :=
    fun id silent hid => .one hid.symm
  refine ⟨hsince ▸ hjournal, hlength ▸ h.stored, ?_, ?_⟩
  · intro id hid
    obtain ⟨hsame, hnotes⟩ := h.old id hid
    rw [hothers id hid.ne, hsince]
    exact ⟨hsame, hnotes.append (hnote id _ hid.ne)⟩
  · intro id hid
    rw [hsince, hlength]
    rcases eq_or_ne id e.store.length with rfl | hne
    · have hsilent : (final.document e.store.length).noUndo = !failed := by
        refine (noUndo_muted hthere failed).trans ?_
        rw [hrecording, Bool.false_or]
      rw [hsilent]
      exact ⟨.opened failed hsuit .nil, fun hbeyond => absurd hthere (Nat.not_lt.mpr hbeyond)⟩
    · obtain ⟨hstory, hnone⟩ := h.new id hid
      rw [hothers id hne]
      refine ⟨hstory.append (hnote id _ hne), fun hbeyond => ?_⟩
      exact (hnone hbeyond).append (hnote id _ hne)

end Editor

/-! ## Moves -/

namespace Scene

variable {s t : Scene}

theorem accounts_opening (s : Scene) (documents : NameMap Nat) (name text : String) :
    s.editor.Accounts (s.opening documents name text).editor :=
  (s.editor.accounts_creating documents name text).trans (Editor.accounts_track _ _ _)

/-- A document that is opened is in the store, and records. -/
theorem recording_opening (s : Scene) (documents : NameMap Nat) (name text : String) :
    s.editor.store.length < (s.opening documents name text).editor.store.length ∧
      ((s.opening documents name text).editor.document s.editor.store.length).noUndo = false := by
  constructor
  · show _ < (List.set _ _ _).length
    rw [List.length_set, Editor.creating, List.length_append]
    exact Nat.lt_succ_self _
  · refine Eq.trans (Editor.noUndo_setDocument ?_ _) ?_
    · rfl
    · rw [Editor.noUndo_creating, Editor.noUndo_of_le le_rfl]

theorem accounts_ended (s : Scene) : s.editor.Accounts s.ended.editor := by
  unfold ended
  dsimp only
  split
  · exact s.editor.accounts_setDocument rfl
  · exact .refl _

theorem accounts_rewritten (s : Scene) {note : Happening} (op : Document.Operation)
    (hop : op.IsEdit) (hnote : ∀ id silent, note.Suits id silent) :
    s.editor.Accounts (s.rewritten note (s.document.perform op).2).editor := by
  have hjot : s.editor.Accounts (s.editor.jot note) := s.editor.accounts_jot fun id => hnote id _
  exact hjot.trans (Editor.accounts_setDocument _ (s.document.editStep_perform hop).noUndo_eq)

/-- **Moves keep accounts** — by induction on the moves. -/
theorem Moves.accounts (h : Moves s t) : s.editor.Accounts t.editor := by
  induction h with
  | refl s => exact .refl _
  | trans _ _ ih ih' => exact ih.trans ih'
  | note | begin | turn => exact Editor.accounts_aside rfl rfl
  | tables place tables =>
    cases place with
    | editor | window => exact Editor.accounts_aside rfl rfl
    | document id => exact Editor.accounts_setDocument _ rfl
  | finish s => exact s.accounts_ended
  | @stray s note hstray =>
    refine s.editor.accounts_jot fun id => ?_
    cases note <;> trivial
  | type id htyped => exact Editor.accounts_setDocument _ htyped.noUndo_eq
  | tell s id =>
    refine s.editor.accounts_jot ?_
    rintro _ rfl
    rfl
  | undo s => exact s.accounts_rewritten .undo trivial fun _ _ => trivial
  | redo s => exact s.accounts_rewritten .redo trivial fun _ _ => trivial
  | select x => exact Editor.accounts_setDocument _ rfl
  | @retitle s _ _ _ hrename =>
    obtain ⟨documents, id, -, rfl⟩ := Editor.renameDocument_eq hrename
    have hnames : s.editor.Accounts { s.editor with documents } := Editor.accounts_aside rfl rfl
    exact hnames.trans (Editor.accounts_setDocument _ rfl)
  | @rename s _ clients _ =>
    have hclients : s.editor.Accounts { s.editor with clients } := Editor.accounts_aside rfl rfl
    exact hclients.trans (Editor.accounts_jot _ fun _ => trivial)
  | create text _ _ ih =>
    exact ((accounts_opening _ _ _ text).trans ih).trans (Editor.accounts_release _ _)
  | @mute s t name documents text failed _ _ ih =>
    have hopened := accounts_opening s documents name text
    have hhooks := ih.trans (Editor.accounts_release t.editor t.context)
    obtain ⟨hthere, hrecording⟩ := s.recording_opening documents name text
    -- to the hooks the new document is an old one, so they leave it recording
    obtain ⟨hsame, hsuit⟩ := hhooks.old s.editor.store.length hthere
    rw [hrecording] at hsame hsuit
    exact (hopened.trans hhooks).muted (lt_of_lt_of_le hthere hhooks.stored) hsame hsuit failed
  | draft _ ih =>
    have hinside := (Editor.accounts_track _ _ _).trans ih
    exact (hinside.trans (Editor.accounts_release _ _)).trans
      (Editor.accounts_jot _ fun _ => trivial)
  | tracking id l _ ih =>
    have hinside := (Editor.accounts_track _ id l).trans ih
    exact hinside.trans (Editor.accounts_setDocument _ rfl)
  | @client s t name other clients _ _ ih =>
    have hout : s.editor.Accounts { s.editor with clients } := Editor.accounts_aside rfl rfl
    have hback := (hout.trans ih).checkin name t.context.forgetDrawing
    exact hback.trans (Editor.accounts_jot _ fun _ => trivial)

end Scene

/-! ## Calls -/

namespace Editor

variable {e : Editor}

theorem accounts_fire (e : Editor) (name : String) (document : Nat) (event param : String) :
    e.Accounts ((fire Scene.execute name document event param).perform e).2 := by
  obtain ⟨t, hmoves, hfired⟩ := e.fire_cases name document event param
  have hopened : e.Accounts (e.newContext name document none default).2 := accounts_track _ _ _
  rw [hfired]
  exact (hopened.trans hmoves.accounts).trans (accounts_release _ _)

theorem accounts_createDocument (e : Editor) (name text : String) :
    e.Accounts ((createDocument Scene.execute name text).perform e).2 :=
  (Scene.moves_createDocument ⟨e, { name, document := 0, tracker := 0 }⟩ name text).accounts

theorem accounts_closeDocument (e : Editor) (name : String) :
    e.Accounts ((closeDocument Scene.execute name).perform e).2 := by
  have hfired : ∀ id, e.Accounts ((fire Scene.execute name id "BufClose" name).perform e).2 :=
    fun id => e.accounts_fire name id "BufClose" name
  rcases e.closeDocument_cases name with hfailed | ⟨id, hfailed | hclosed⟩
  · rw [hfailed]
    exact .refl e
  · rw [hfailed]
    exact hfired id
  · rw [hclosed]
    exact (hfired id).trans (accounts_aside rfl rfl)

theorem accounts_createClient (e : Editor) (document : Nat) (name : Option String) :
    e.Accounts ((createClient Scene.execute document name).perform e).2 := by
  show e.Accounts (e.afterCall (.create document name))
  obtain ⟨number, hrefused | ⟨client, t, hmoves, hmade⟩⟩ := create_cases document name e
  · rw [hrefused]
    exact accounts_aside rfl rfl
  have hnumbered : e.Accounts (e.numbered number) := accounts_aside rfl rfl
  have hhooks := (hnumbered.trans (accounts_track _ _ _)).trans hmoves.accounts
  rcases hmade with hdropped | ⟨clients, -, hadded⟩
  · rw [hdropped]
    exact hhooks.trans (accounts_release _ _)
  · rw [hadded]
    exact hhooks.trans (accounts_aside rfl rfl)

theorem accounts_removeClient (e : Editor) (name : String) :
    e.Accounts ((removeClient name).perform e).2 := by
  have hremoved : e.Accounts { e with clients := e.clients.remove name } := accounts_aside rfl rfl
  rcases e.removeClient_cases name with hkept | ⟨ctx, hdropped⟩
  · rw [hkept]
    exact hremoved
  · rw [hdropped]
    exact hremoved.trans (accounts_release _ ctx)

end Editor

namespace Scene

theorem accounts_changeDocument (s : Scene) (name : String) :
    s.editor.Accounts ((changeDocument name).perform s).2.editor := by
  rcases s.changeDocument_cases name with hfailed | ⟨id, -, hmoved⟩
  · rw [hfailed]
    exact .refl _
  · rw [hmoved]
    exact (Editor.accounts_track _ _ _).trans (Editor.accounts_release _ _)

theorem accounts_work (s : Scene) (work : Work) :
    s.editor.Accounts (work.act.perform s).2.editor := by
  cases work with
  | run script => exact (script.moving_act s).accounts
  | configure config => exact ((moving_applyConfig config).bind (fun _ => obeys_pure _) s).accounts
  | move name => exact s.accounts_changeDocument name

end Scene

theorem Editor.accounts_inClient (e : Editor) (name : String) (work : Work) :
    e.Accounts ((inClient name work.act).perform e).2 := by
  rw [perform_inClient]
  cases e.clients.checkout name with
  | error error => exact .refl e
  | ok found =>
    have hout : e.Accounts { e with clients := found.2 } := accounts_aside rfl rfl
    exact (hout.trans (Scene.accounts_work ⟨_, found.1⟩ work)).checkin name _

namespace World

/-- **Every call keeps accounts** — whether it fails or not. -/
theorem accounts_after (w : World) (call : WorldCall) :
    w.editor.Accounts (w.after call).editor := by
  cases call with
  | createDocument name text => exact w.editor.accounts_createDocument name text
  | closeDocument name => exact w.editor.accounts_closeDocument name
  | createClient document name => exact w.editor.accounts_createClient document name
  | removeClient name => exact w.editor.accounts_removeClient name
  | makeContext name document windowed => exact w.editor.accounts_track document default
  | workInClient name work => exact w.editor.accounts_inClient name work
  | workInContext index work =>
    show w.editor.Accounts (w.workIn index work).editor
    unfold workIn
    cases w.contexts[index]? with
    | none => exact .refl _
    | some ctx => exact Scene.accounts_work ⟨w.editor, ctx⟩ work

theorem accounts_afterCalls (w : World) (calls : List WorldCall) :
    w.editor.Accounts (w.afterCalls calls).editor := by
  induction calls generalizing w with
  | nil => exact .refl _
  | cons call calls ih => exact (w.accounts_after call).trans (ih (w.after call))

end World

/-! ## Debug output -/

namespace World

/-- **Debug output is not recorded** — this holds of a document that was opened for it just if the
hooks on the new document have succeeded, and no debug output was written to it until they were
done. -/
theorem debug_output_is_not_recorded (w : World) (calls : List WorldCall) {id : Nat} {failed : Bool}
    {before after : List Happening} :
    let done := (w.afterCalls calls).editor
    w.editor.since done = before ++ .debugOpened id failed :: after →
      (((done.document id).noUndo = true ∧
          ∀ recorded, .debugged id recorded ∈ w.editor.since done → recorded = false) ↔
        failed = false ∧ ∀ recorded, .debugged id recorded ∉ before) := by
  intro done htold
  have haccounts : w.editor.Accounts done := w.accounts_afterCalls calls
  have hopened : Happening.debugOpened id failed ∈ w.editor.since done :=
    htold ▸ List.mem_append_right _ List.mem_cons_self
  -- documents that were there before are not opened, so this is a new one
  have hnew : w.editor.store.length ≤ id := by
    by_contra hold
    exact (haccounts.old id (Nat.lt_of_not_le hold)).2.not_opened hopened
  have hstory := (haccounts.new id hnew).1
  rw [htold] at hstory
  obtain ⟨hsilent, hbefore, hafter⟩ := hstory.split
  rw [htold, hsilent, Bool.not_eq_true']
  refine and_congr_right ?_
  rintro rfl
  constructor
  · intro hkept recorded hmem
    have hrecorded : recorded = true := hbefore.recorded_eq hmem
    have hsame := hkept recorded (List.mem_append_left _ hmem)
    exact absurd (hrecorded.symm.trans hsame) Bool.noConfusion
  · intro hnone recorded hmem
    rcases List.mem_append.mp hmem with hmem | hmem
    · exact absurd hmem (hnone recorded)
    · rcases List.mem_cons.mp hmem with hsame | hmem
      · cases hsame
      · exact hafter.recorded_eq hmem

/-- An editor with a hook on new documents, and a context on the only document so far. -/
def hooking (commands : String) : World where
  editor :=
    let onNew : Hook HookBody :=
      ⟨"", ⟨".*", .repetition (.atLeast 0 true) (.item (.one (.compl (.range 10 10)) 0))⟩,
        .commands commands⟩
    { store := [{ name := "a", text := [], nextListener := 1 }]
      documents := ⟨"buffer", [("a", 0)]⟩
      commands := Command.coreTable
      scopes := { hooks := ⟨[("BufCreate", [onNew])]⟩ } }
  contexts := [{ name := "main", document := 0, tracker := 0 }]

/-- Each of the texts is written as debug output. -/
def debugging (texts : List String) : List WorldCall :=
  texts.map fun text => .workInContext 0 (.run (.line {} ("debug " ++ text)))

/-- A hook types into the document for debug output, which it has as its history in the end. The
lines that are written then are kept out of it. -/
theorem unrecorded_beside_typing_hook :
    let w := hooking "exec iq<esc>"
    let done := (w.afterCalls (debugging ["x", "y"])).editor
    w.editor.since done = [] ++ .debugOpened 1 false :: [.debugged 1 false, .debugged 1 false] ∧
      (done.document 1).text = "qx\ny\n".toList ∧ (done.document 1).noUndo = true ∧
      ∀ recorded, .debugged 1 recorded ∈ w.editor.since done → recorded = false := by
  intro w done
  have hrun : (fun done : Editor => (w.editor.since done, (done.document 1).text))
      ((hooking "exec iq<esc>").afterCalls (debugging ["x", "y"])).editor =
        ([.debugOpened 1 false, .debugged 1 false, .debugged 1 false], "qx\ny\n".toList) := by
    decide +kernel
  obtain ⟨htold, htext⟩ := Prod.mk.inj hrun
  have hkept := (debug_output_is_not_recorded w (debugging ["x", "y"]) htold).mpr
    ⟨rfl, fun _ => List.not_mem_nil⟩
  exact ⟨htold, htext, hkept⟩

/-- A hook fails on the document for debug output. The document is found by the next line, which is
recorded and can be taken back. -/
theorem recorded_after_failing_hook :
    let w := hooking "nothing"
    let done := (w.afterCalls (debugging ["x", "y"])).editor
    w.editor.since done = [.debugOpened 1 true, .debugged 1 true] ∧
      done.documents.get? Editor.debugName = some 1 ∧ (done.document 1).noUndo = false ∧
      (done.document 1).text = "y\n".toList ∧ (done.document 1).undo.2.text = [] := by
  intro w done
  have hrun : (fun done : Editor => (w.editor.since done, done.documents.get? Editor.debugName,
      (done.document 1).noUndo, (done.document 1).text, (done.document 1).undo.2.text))
      ((hooking "nothing").afterCalls (debugging ["x", "y"])).editor =
        ([.debugOpened 1 true, .debugged 1 true], some 1, false, "y\n".toList, []) := by
    decide +kernel
  simpa only [Prod.mk.injEq] using hrun

/-- A hook writes debug output itself when the document for it is opened. That line is recorded and
can be taken back. -/
theorem recorded_in_hook :
    let w := hooking "debug inner"
    let done := (w.afterCalls (debugging ["x"])).editor
    w.editor.since done = [.debugged 1 true, .debugOpened 1 false, .debugged 1 false] ∧
      done.documents.get? Editor.debugName = some 1 ∧ (done.document 1).noUndo = true ∧
      (done.document 1).text = "inner\nx\n".toList ∧
      (done.document 1).undo.2.text = "x\n".toList := by
  intro w done
  have hrun : (fun done : Editor => (w.editor.since done, done.documents.get? Editor.debugName,
      (done.document 1).noUndo, (done.document 1).text, (done.document 1).undo.2.text))
      ((hooking "debug inner").afterCalls (debugging ["x"])).editor =
        ([.debugged 1 true, .debugOpened 1 false, .debugged 1 false], some 1, true,
          "inner\nx\n".toList, "x\n".toList) := by decide +kernel
  simpa only [Prod.mk.injEq] using hrun

end World

end ModalEdit
