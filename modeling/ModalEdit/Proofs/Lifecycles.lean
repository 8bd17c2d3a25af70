import ModalEdit.Proofs.OpenDocuments
import ModalEdit.Proofs.WorldCalls

/-!
# Opening and closing under hooks

Opening a document, opening a client and closing a document each run hooks in the middle, whose
commands can fail or rename anything (`lifecycles_under_hooks`). A client is there just if opening
it succeeds. A document is registered before its hooks run, so it stays if they fail
(`opened_although_hook_fails`). It is closed under the name it had before its hooks ran: if they
rename it, it stays open, and if they give its name to another document, that one is closed instead
(`closed_by_old_name`).
-/

namespace ModalEdit

open Act

/-! ## Documents that are closed -/

namespace Editor

variable {e e' : Editor} {id document : Nat} {name : String}

theorem lists_forgetting (he : e.Sound) :
    (e.forgetting name).Lists id ↔ e.Lists id ∧ e.documents.get? name ≠ some id := by
  have hget : ∀ other, (e.forgetting name).documents.get? other =
      if other = name then none else e.documents.get? other := fun _ => Entries.get?_erase
  constructor
  · rintro ⟨other, hother⟩
    rw [hget] at hother
    split at hother
    · cases hother
    next hne => exact ⟨⟨other, hother⟩, fun hname => hne (he.name_eq hother hname)⟩
  · rintro ⟨⟨other, hother⟩, hname⟩
    refine ⟨other, ?_⟩
    rw [hget, if_neg, hother]
    rintro rfl
    exact hname hother

theorem Sound.forgetting (he : e.Sound) (name : String) : (e.forgetting name).Sound where
  distinct := he.distinct.sublist (List.filter_sublist.map _)
  once := he.once.sublist (List.filter_sublist.map _)
  stored id hid := he.stored id ((List.filter_sublist.map _).subset hid)
  numbered := he.numbered

/-! ## Documents -/

theorem grows_fire (e : Editor) (name : String) (document : Nat) (event param : String) :
    e.Grows ((fire Scene.execute name document event param).perform e).2 := by
  obtain ⟨t, hmoves, hfired⟩ := e.fire_cases name document event param
  have hopened : e.Grows (e.newContext name document none default).2 := grows_track _ _ _
  rw [hfired]
  exact (hopened.trans hmoves.grows).trans (grows_release _ _)

/-- **Opening a document** — a name that is taken is refused. If it is free, the document is
registered before hooks run on it, and stays whether they fail or not. -/
theorem opens_document (he : e.Sound) (name text : String) :
    let done := (createDocument Scene.execute name text).perform e
    e.Grows done.2 ∧
      match e.documents.get? name with
      | some _ => ∃ error, done = (.error error, e)
      | none => done.2.Lists e.store.length ∧ ∀ id, done.1 = .ok id → id = e.store.length := by
  intro done
  let s : Scene := ⟨e, { name, document := 0, tracker := 0 }⟩
  cases hget : e.documents.get? name with
  | some id =>
    have hinsert : e.documents.insert name e.store.length = .error (e.documents.duplicate name) :=
      if_pos (Option.isSome_of_eq_some hget)
    have hdone : done = (.error (.registry (e.documents.duplicate name)), e) :=
      Scene.perform_createDocument_of_error hinsert text
    exact ⟨hdone ▸ .refl e, _, hdone⟩
  | none =>
    have hfree : ¬(e.documents.get? name).isSome := by
      rw [hget]
      exact Bool.false_ne_true
    obtain ⟨documents, hinsert⟩ : ∃ documents,
        e.documents.insert name e.store.length = .ok documents := ⟨_, if_neg hfree⟩
    have hdone : done = _ := Scene.perform_createDocument (s := s) hinsert text
    have hmoves := Scene.obeys_runHook Scene.moving_execute "BufCreate" name
      (s.opening documents name text)
    have hcreating := grows_creating hinsert text
    have hhooks := Scene.grows_opening hmoves.grows
    refine ⟨hdone ▸ hcreating.trans hhooks, hdone ▸ hhooks.lists (hcreating.sound he) ?_, ?_⟩
    · refine (hcreating.sound he).lists_iff.mpr ?_
      obtain ⟨-, rfl⟩ := NameMap.insert_eq_ok hinsert
      rw [opened, creating, Entries.values_append]
      exact List.mem_append_right _ (List.mem_singleton_self _)
    · intro id hid
      rw [hdone] at hid
      obtain ⟨_, -, hid⟩ := map_eq_ok.mp hid
      exact hid.symm

/-- What is open stays open, but for the document that has the name when the hooks are done. -/
theorem lists_closeDocument (he : e.Sound) (hname : e.documents.get? name = some id) :
    let done := (closeDocument Scene.execute name).perform e
    let hooks := (fire Scene.execute name id "BufClose" name).perform e
    ∀ other, e.Lists other → (done.2.Lists other ↔
      ((∃ error, done.1 = .error error) ∨ hooks.2.documents.get? name ≠ some other)) := by
  intro done hooks other hother
  have hfired : e.Grows hooks.2 := e.grows_fire name id "BufClose" name
  have hdone : done = (hooks.1, if hooks.1.isOk then hooks.2.forgetting name else hooks.2) :=
    perform_closeDocument hname
  rw [hdone]
  cases hooks.1 with
  | error error => exact iff_of_true (hfired.lists he hother) (.inl ⟨error, rfl⟩)
  | ok =>
    show (hooks.2.forgetting name).Lists other ↔ _
    rw [lists_forgetting (hfired.sound he)]
    simp [hfired.lists he hother]

/-- **Closing a document** — if it succeeds, that document is closed and no other just if it still
has its name when the hooks are done; if it fails, none is closed. -/
theorem closes_document (he : e.Sound) (hname : e.documents.get? name = some id) :
    let done := (closeDocument Scene.execute name).perform e
    let hooks := (fire Scene.execute name id "BufClose" name).perform e
    (∀ error, done.1 = .error error → ∀ other, e.Lists other → done.2.Lists other) ∧
      (done.1 = .ok () →
        ((¬done.2.Lists id ∧ ∀ other, other ≠ id → e.Lists other → done.2.Lists other) ↔
          hooks.2.documents.get? name = some id)) := by
  intro done hooks
  have hlists := lists_closeDocument he hname
  refine ⟨fun error herror other hother => (hlists other hother).mpr (.inl ⟨error, herror⟩), ?_⟩
  intro hok
  have hkept : ∀ other, e.Lists other →
      (done.2.Lists other ↔ hooks.2.documents.get? name ≠ some other) := by
    intro other hother
    refine (hlists other hother).trans (or_iff_right ?_)
    rintro ⟨error, herror⟩
    exact nomatch hok.symm.trans herror
  have hid := hkept id ⟨name, hname⟩
  constructor
  · rintro ⟨hclosed, -⟩
    exact not_not.mp (mt hid.mpr hclosed)
  · intro hstill
    refine ⟨fun hopen => hid.mp hopen hstill, fun other hne hother => ?_⟩
    exact (hkept other hother).mpr fun hsame => hne (Option.some.inj (hsame.symm.trans hstill))

/-! ## Clients -/

theorem grows_numbered (e : Editor) (number : Nat) : e.Grows (e.numbered number) :=
  grows_of_eq rfl rfl fun ctx hctx => ⟨ctx, hctx, rfl⟩

/-- **Opening a client** — its context gets a slot just if that succeeds. -/
theorem opens_client (he : e.Sound) (document : Nat) (name : Option String) :
    let done := (createClient Scene.execute document name).perform e
    (∀ id, e.Lists id → done.2.Lists id) ∧
      ((∃ client, done.1 = .ok client) ↔
        done.2.HasClient (document, (e.document document).nextListener)) := by
  intro done
  -- no context has the tracker of the new one before
  have hnew : ¬e.HasClient (document, (e.document document).nextListener) := fun hheld =>
    lt_irrefl _ (he.numbered _ _ hheld)
  have hfailed : ∀ {error e'}, e.Grows e' → done = (.error error, e') →
      (∀ id, e.Lists id → done.2.Lists id) ∧ ((∃ client, done.1 = .ok client) ↔
        done.2.HasClient (document, (e.document document).nextListener)) := by
    rintro error e' hgrows hdone
    rw [hdone]
    refine ⟨fun _ => hgrows.lists he, iff_of_false ?_ fun hheld => hnew (hgrows.held _ hheld)⟩
    rintro ⟨_, ⟨⟩⟩
  obtain ⟨number, ⟨error, hrefused⟩ | ⟨client, t, hmoves, hmade⟩⟩ :=
    perform_createClient document name e
  · exact hfailed (e.grows_numbered number) hrefused
  have hmaking : e.Grows ((e.numbered number).making document client).editor :=
    (e.grows_numbered number).trans (grows_track _ _ _)
  have hhooks := hmaking.trans hmoves.grows
  rcases hmade with ⟨error, hdropped⟩ | ⟨clients, hadd, hadded⟩
  · exact hfailed (hhooks.trans (grows_release _ _)) hdropped
  · have hdone : done = (.ok client, { t.editor with clients }) := hadded
    rw [hdone]
    refine ⟨fun _ hid => ?_, iff_of_true ⟨client, rfl⟩ ?_⟩
    · exact hhooks.lists he hid
    · exact ⟨t.context, (Clients.holds_add hadd).mpr (.inl rfl),
        congrArg₂ Prod.mk hmoves.context_eq.1 hmoves.context_eq.2⟩

end Editor

/-! ## Editors that calls lead to -/

namespace Editor

variable {e e' : Editor} {ctx : Context}

/-- **`e.Numbers ctx`** — the tracker of the context is a listener that its document numbered. -/
def Numbers (e : Editor) (ctx : Context) : Prop :=
  ctx.tracker < (e.document ctx.document).nextListener

/-- The context of a client changes. -/
theorem Sound.withClients (he : e.Sound) {clients : Clients}
    (hheld : ∀ ctx, clients.Holds ctx → e.Numbers ctx) : ({ e with clients } : Editor).Sound where
  distinct := he.distinct
  once := he.once
  stored := he.stored
  numbered := by
    rintro _ _ ⟨ctx, hctx, hidentity⟩
    obtain ⟨rfl, rfl⟩ := Prod.mk.inj hidentity
    exact hheld ctx hctx

theorem Sound.numbers (he : e.Sound) (hctx : e.clients.Holds ctx) : e.Numbers ctx :=
  he.numbered _ _ ⟨ctx, hctx, rfl⟩

theorem numbers_newContext (name : String) {document : Nat} (h : document < e.store.length)
    (window : Option Window) (l : SelectionList) :
    (e.newContext name document window l).2.Numbers (e.newContext name document window l).1 := by
  show (e.document document).nextListener < (Editor.document _ document).nextListener
  rw [newContext, document_setDocument, if_pos ⟨rfl, h⟩]
  exact Nat.lt_succ_self _

theorem Grows.numbers (h : e.Grows e') (hctx : e.Numbers ctx) : e'.Numbers ctx :=
  lt_of_lt_of_le hctx (h.numbered _)

theorem Sound.checkin (he : e.Sound) (hctx : e.Numbers ctx) (name : String) :
    (e.checkin name ctx).Sound := by
  have hkept : ({ e with clients := (e.clients.checkin name ctx).2 } : Editor).Sound := by
    refine he.withClients fun held hheld => ?_
    rcases (e.clients.holds_of_checkin name ctx).2 held hheld with rfl | hold
    · exact hctx
    · exact he.numbers hold
  unfold Editor.checkin
  dsimp only
  split
  · exact (grows_release _ _).sound hkept
  · exact hkept

end Editor

namespace Scene

variable {s t : Scene}

theorem Moves.numbers (h : Moves s t) (hs : s.editor.Numbers s.context) :
    t.editor.Numbers t.context := by
  have hnumbers := h.grows.numbers hs
  rwa [Editor.Numbers, ← h.context_eq.1, ← h.context_eq.2] at hnumbers

/-- A context that is moved gets a tracker of the document that it is moved onto. -/
theorem sound_changeDocument (hs : s.editor.Sound) (name : String) :
    let t := ((changeDocument name).perform s).2
    t.editor.Sound ∧ (s.editor.Numbers s.context → t.editor.Numbers t.context) := by
  rcases s.changeDocument_cases name with hfailed | ⟨id, hnamed, hmoved⟩
  · rw [hfailed]
    exact ⟨hs, fun hctx => hctx⟩
  · have hstored : id < s.editor.store.length := hs.stored id (Editor.mem_opened hnamed)
    have htracked : s.editor.Grows
        (s.editor.setDocument id ((s.editor.document id).track default).2) :=
      Editor.grows_track _ _ _
    have hreleased := Editor.grows_release
      (s.editor.setDocument id ((s.editor.document id).track default).2) s.context
    rw [hmoved]
    refine ⟨(htracked.trans hreleased).sound hs, fun _ => ?_⟩
    have hnew := Editor.numbers_newContext s.context.name hstored s.context.window default
    exact hreleased.numbers hnew

/-- Work in a context leaves it with a tracker of its document. -/
theorem sound_work (hs : s.editor.Sound) (work : Work) :
    let t := (work.act.perform s).2
    t.editor.Sound ∧ (s.editor.Numbers s.context → t.editor.Numbers t.context) := by
  have hmoving : ∀ {α : Type} {act : Act Scene α}, Moving act →
      let t := (act.perform s).2
      t.editor.Sound ∧ (s.editor.Numbers s.context → t.editor.Numbers t.context) :=
    fun hact => ⟨(hact s).grows.sound hs, (hact s).numbers⟩
  cases work with
  | run script => exact hmoving script.moving_act
  | configure config => exact hmoving ((moving_applyConfig config).bind fun _ => obeys_pure _)
  | move name => exact sound_changeDocument hs name

end Scene

namespace Editor

variable {e : Editor}

theorem Sound.removeClient (he : e.Sound) (name : String) :
    ((removeClient name).perform e).2.Sound := by
  have hremoved : ({ e with clients := e.clients.remove name } : Editor).Sound :=
    he.withClients fun ctx hctx => he.numbers (Clients.holds_of_remove hctx)
  rcases e.removeClient_cases name with hkept | ⟨ctx, hdropped⟩
  · rw [hkept]
    exact hremoved
  · rw [hdropped]
    exact (grows_release _ _).sound hremoved

theorem Sound.inClient (he : e.Sound) (name : String) (work : Work) :
    ((inClient name work.act).perform e).2.Sound := by
  rw [perform_inClient]
  cases hcheckout : e.clients.checkout name with
  | error error => exact he
  | ok found =>
    obtain ⟨hother, hheld⟩ := Clients.holds_of_checkout hcheckout
    have hout : ({ e with clients := found.2 } : Editor).Sound :=
      he.withClients fun ctx hctx => he.numbers (hheld ctx hctx)
    obtain ⟨hdone, hnumbers⟩ := Scene.sound_work (s := ⟨{ e with clients := found.2 }, found.1⟩)
      hout work
    exact hdone.checkin (hnumbers (he.numbers hother)) name

/-- The context of a new client has a tracker that its document has numbered. -/
theorem Sound.createClient (he : e.Sound) {document : Nat} (h : document < e.store.length)
    (name : Option String) : ((createClient Scene.execute document name).perform e).2.Sound := by
  obtain ⟨number, ⟨error, hrefused⟩ | ⟨client, t, hmoves, hmade⟩⟩ :=
    perform_createClient document name e
  · rw [hrefused]
    exact (e.grows_numbered number).sound he
  have hmaking : e.Grows ((e.numbered number).making document client).editor :=
    (e.grows_numbered number).trans (grows_track _ _ _)
  have ht := (hmaking.trans hmoves.grows).sound he
  rcases hmade with ⟨error, hdropped⟩ | ⟨clients, hadd, hadded⟩
  · rw [hdropped]
    exact (grows_release _ _).sound ht
  · rw [hadded]
    refine ht.withClients fun ctx hctx => ?_
    rcases (Clients.holds_add hadd).mp hctx with rfl | hheld
    · have hnew := numbers_newContext (e := e.numbered number) client h (some {}) default
      exact hmoves.numbers hnew
    · exact ht.numbers hheld

theorem Sound.closeDocument (he : e.Sound) (name : String) :
    ((closeDocument Scene.execute name).perform e).2.Sound := by
  rcases e.closeDocument_cases name with hfailed | ⟨id, hfailed | hclosed⟩
  · rw [hfailed]
    exact he
  · rw [hfailed]
    exact (e.grows_fire name id "BufClose" name).sound he
  · rw [hclosed]
    exact ((e.grows_fire name id "BufClose" name).sound he).forgetting name

end Editor

/-- **`call.IsFor e`** — a document that the call is given is one of the editor. -/
def WorldCall.IsFor (call : WorldCall) (e : Editor) : Prop :=
  match call with
  | .createClient document _ | .makeContext _ document _ => document < e.store.length
  | _ => True

namespace World

variable {w : World}

/-- **One call** — it keeps the editor sound. -/
theorem sound_after (hw : w.editor.Sound) {call : WorldCall} (hcall : call.IsFor w.editor) :
    (w.after call).editor.Sound := by
  cases call with
  | createDocument name text => exact (Editor.opens_document hw name text).1.sound hw
  | closeDocument name => exact hw.closeDocument name
  | createClient document name => exact hw.createClient hcall name
  | removeClient name => exact hw.removeClient name
  | makeContext name document windowed => exact (Editor.grows_track _ _ _).sound hw
  | workInClient name work => exact hw.inClient name work
  | workInContext index work =>
    show (w.workIn index work).editor.Sound
    unfold workIn
    split
    · exact hw
    · exact (Scene.sound_work hw work).1

/-- **`w.Reached`** — calls lead from a new editor to `w`, each with documents that there are. -/
inductive Reached : World → Prop
  | new (host : Host) : Reached ⟨Editor.new host, []⟩
  | call {w : World} {call : WorldCall} : Reached w → call.IsFor w.editor → Reached (w.after call)

/-- **Every editor that calls lead to is sound** — by induction on the calls. -/
theorem Reached.sound (hw : w.Reached) : w.editor.Sound := by
  induction hw with
  | new host => exact Editor.sound_new host
  | call _ hcall ih => exact sound_after ih hcall

end World

/-! ## Lifecycles -/

namespace Editor

variable {e : Editor}

/-- **What opening and closing come to, whatever hooks do**. A document whose name is free is
registered, also if opening it fails; a client is there just if opening it succeeds; and closing a
document, if it succeeds, closes that document and no other just if it still has its name when the
hooks are done. Else nothing that was open is closed. -/
theorem lifecycles_under_hooks (he : e.Sound) :
    (∀ name text,
      let done := (createDocument Scene.execute name text).perform e
      (∀ id, e.Lists id → done.2.Lists id) ∧
        match e.documents.get? name with
        | some _ => ∃ error, done = (.error error, e)
        | none => done.2.Lists e.store.length ∧ ∀ id, done.1 = .ok id → id = e.store.length) ∧
    (∀ document name,
      let done := (createClient Scene.execute document name).perform e
      (∀ id, e.Lists id → done.2.Lists id) ∧
        ((∃ client, done.1 = .ok client) ↔
          done.2.HasClient (document, (e.document document).nextListener))) ∧
    ∀ name,
      let done := (closeDocument Scene.execute name).perform e
      match e.documents.get? name with
      | none => ∃ error, done = (.error error, e)
      | some id =>
        let hooks := (fire Scene.execute name id "BufClose" name).perform e
        (∀ error, done.1 = .error error → ∀ other, e.Lists other → done.2.Lists other) ∧
          (done.1 = .ok () →
            ((¬done.2.Lists id ∧ ∀ other, other ≠ id → e.Lists other → done.2.Lists other) ↔
              hooks.2.documents.get? name = some id)) := by
  refine ⟨fun name text => ?_, fun document name => opens_client he document name, fun name => ?_⟩
  · obtain ⟨hgrows, hmatch⟩ := opens_document he name text
    exact ⟨fun _ => hgrows.lists he, hmatch⟩
  · intro done
    cases hname : e.documents.get? name with
    | none => exact ⟨_, perform_closeDocument_of_none hname⟩
    | some id =>
      exact closes_document he hname

/-- A hook fails on a document that is opened, and the document is registered all the same. -/
theorem opened_although_hook_fails :
    let onX : Hook HookBody := ⟨"", ⟨"x", .item (.one (.range 120 120) 0)⟩, .commands "nothing"⟩
    let e : Editor :=
      { commands := Command.coreTable, scopes := { hooks := ⟨[("BufCreate", [onX])]⟩ } }
    let done := (createDocument Scene.execute "x" "").perform e
    done.1 = .error (.registry (.notFound "command" "nothing")) ∧ done.2.Lists 0 := by
  intro onX e done
  have hrun : (fun done : Except CommandError Nat × Editor =>
      (done.1, done.2.documents.get? "x")) ((createDocument Scene.execute "x" "").perform e) =
        (.error (.registry (.notFound "command" "nothing")), some 0) := by decide +kernel
  simp only [Prod.mk.injEq] at hrun
  exact ⟨hrun.1, "x", hrun.2⟩

/-- Hooks rename a document that is closed and give its name to another one. Closing succeeds, but
that document stays open, and the other one is closed. -/
theorem closed_by_old_name :
    let onX : Hook HookBody := ⟨"", ⟨"x", .item (.one (.range 120 120) 0)⟩,
      .commands "namebuf y; eval -client other namebuf x"⟩
    let other : Context := { name := "other", document := 1, tracker := 0, window := some {} }
    let e : Editor :=
      { store := [.ofText "x" "", { name := "z", text := [], nextListener := 1 }]
        documents := ⟨"buffer", [("x", 0), ("z", 1)]⟩
        clients := { slots := ⟨"client", [("other", some other)]⟩ }
        commands := Command.coreTable
        scopes := { hooks := ⟨[("BufClose", [onX])]⟩ } }
    let done := (closeDocument Scene.execute "x").perform e
    e.Sound ∧ done.1 = .ok () ∧ done.2.documents.entries = [("y", 0)] ∧
      ¬(¬done.2.Lists 0 ∧ ∀ id, id ≠ 0 → e.Lists id → done.2.Lists id) := by
  intro onX other e done
  have he : e.Sound := by
    refine ⟨by decide, by decide, by decide, ?_⟩
    rintro id tracker ⟨ctx, ⟨name, hmem⟩, hidentity⟩
    obtain rfl := Option.some.inj (Prod.mk.inj (List.mem_singleton.mp hmem)).2
    obtain ⟨rfl, rfl⟩ := Prod.mk.inj hidentity
    exact Nat.one_pos
  have hrun : (fun done : Except CommandError Unit × Editor =>
      (done.1, done.2.documents.entries)) ((closeDocument Scene.execute "x").perform e) =
        (.ok (), [("y", 0)]) := by decide +kernel
  simp only [Prod.mk.injEq] at hrun
  have hhooks : ((fire Scene.execute "x" 0 "BufClose" "x").perform e).2.documents.get? "x" =
      some 1 := by decide +kernel
  refine ⟨he, hrun.1, hrun.2, fun hclosed => ?_⟩
  have hstill := (((lifecycles_under_hooks he).2.2 "x").2 hrun.1).mp hclosed
  exact absurd (hhooks.symm.trans hstill) (by decide)

end Editor

end ModalEdit
