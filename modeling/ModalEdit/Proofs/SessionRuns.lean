import ModalEdit.Proofs.Lifecycles
import ModalEdit.Session

/-!
# Sessions and their clients

A session opens one client and runs command lines and keys in it. Between two of them the context of
the client is in its slot, and a session knows the slot by the name that the client had at first.
`perform_run` has what a run comes to: it is to do in that context what `follow` does, the lines one
after another and then the keys, and it does as long as the client goes by that name. So a session
follows its client (`follows_client`) there and back (`finds_client_again`), but once a line has
renamed it, it is not found any more (`loses_renamed_client`).
-/

namespace ModalEdit

open Act

/-! ## While all clients are out -/

/-- **`c.Vacant n`** — there are so many clients, and the context of each is checked out. -/
structure Clients.Vacant (n : Nat) (c : Clients) : Prop where
  kind : c.slots.kind = "client"
  empty : ∀ entry ∈ c.entries, entry.2 = none
  length : c.entries.length = n

namespace Clients

variable {n : Nat} {c clients : Clients} {name source target : String} {ctx : Context}

theorem Vacant.rename (h : c.Vacant n) (hrename : c.rename source target = .ok clients) :
    clients.Vacant n := by
  rcases rename_eq hrename with ⟨-, rfl⟩ | ⟨-, -, -, rfl⟩
  · exact h
  have hvalues : (c.entries.rename source target).values = c.entries.values := Entries.values_rename
  refine ⟨h.kind, fun entry hentry => ?_, ?_⟩
  · obtain ⟨old, hold, rfl⟩ := List.mem_map.mp hentry
    have hvalue : old.2 ∈ (c.entries.rename source target).values := List.mem_map_of_mem hold
    rw [hvalues] at hvalue
    obtain ⟨slot, hslot, heq⟩ := List.mem_map.mp hvalue
    have hempty : old.2 = none := heq ▸ h.empty slot hslot
    split
    · exact (congrArg (Option.map _) hempty).trans rfl
    · exact hempty
  · have hlength := congrArg List.length hvalues
    rw [Entries.values, Entries.values, List.length_map, List.length_map] at hlength
    exact (List.length_map _).trans (hlength.trans h.length)

theorem Vacant.checkout (h : c.Vacant n) : c.checkout name ≠ .ok (ctx, clients) := by
  intro hcheckout
  have hmem := (checkout_eq hcheckout).1
  cases h.empty _ hmem

end Clients

namespace Scene

variable {s t : Scene} {n : Nat}

/-- **No client comes or goes** — by induction on the moves: none can get at a context that is
checked out, and so none puts one back. -/
theorem Moves.vacant (h : Moves s t) (hs : s.editor.clients.Vacant n) :
    t.editor.clients.Vacant n := by
  induction h with
  | trans _ _ ih ih' => exact ih' (ih hs)
  | tables place tables => exact (clients_setTablesAt _ place tables).symm ▸ hs
  | finish s => exact (clients_ended s).symm ▸ hs
  | retitle hrename =>
    obtain ⟨documents, id, -, rfl⟩ := Editor.renameDocument_eq hrename
    exact hs
  | rename hrename => exact hs.rename hrename
  | create _ _ _ ih => exact ih hs
  | mute _ _ _ _ ih => exact ih hs
  | draft _ ih => exact ih hs
  | tracking _ _ _ ih => exact ih hs
  | client hcheckout => exact absurd hcheckout hs.checkout
  | _ => exact hs

/-- Where there is no client, a context keeps its name. -/
theorem Moves.name_eq (h : Moves s t) (hs : s.editor.clients.Vacant 0) :
    t.context.name = s.context.name := by
  induction h with
  | trans hfirst _ ih ih' => exact (ih' (hfirst.vacant hs)).trans (ih hs)
  | tables place tables => cases place <;> rfl
  | finish s => rw [context_ended]
  | rename hrename =>
    rcases Clients.rename_eq hrename with ⟨hsame, -⟩ | ⟨-, ⟨_, hmem⟩, -⟩
    · exact hsame.symm
    · rw [List.eq_nil_of_length_eq_zero hs.length] at hmem
      cases hmem
  | tracking _ _ _ ih => exact ih hs
  | _ => rfl

end Scene

/-! ## Out and in -/

namespace NameMap

variable {V : Type} (kind name other : String) (v w : V)

theorem get?_single : (⟨kind, [(name, v)]⟩ : NameMap V).get? other =
    if other = name then some v else none := by
  by_cases h : other = name <;> simp [get?, Entries.get?, h]

theorem contains_single :
    (⟨kind, [(name, v)]⟩ : NameMap V).contains other = true ↔ other = name := by
  by_cases h : other = name <;> simp [contains, Entries.contains, Entries.get?, h]

theorem put_single : (⟨kind, [(name, v)]⟩ : NameMap V).put name w = ⟨kind, [(name, w)]⟩ := by
  simp [put, Entries.put, Entries.contains, Entries.get?, Entries.modify]

end NameMap

namespace Clients

variable {c : Clients} {name other : String}

/-- The clients when there is one, in whose slot that is. -/
def lone (c : Clients) (name : String) (slot : Option Context) : Clients :=
  { c with slots := ⟨"client", [(name, slot)]⟩ }

theorem vacant_lone (c : Clients) (name : String) : (c.lone name none).Vacant 1 where
  kind := rfl
  empty _ hentry := congrArg Prod.snd (List.mem_singleton.mp hentry)
  length := rfl

theorem Vacant.exists_name (h : c.Vacant 1) : ∃ name, c = c.lone name none := by
  obtain ⟨⟨kind, entries⟩, nextNumber⟩ := c
  obtain ⟨⟨name, slot⟩, rfl⟩ := List.length_eq_one_iff.mp h.length
  obtain rfl : slot = none := h.empty _ (List.mem_singleton_self _)
  obtain rfl : kind = "client" := h.kind
  exact ⟨name, rfl⟩

theorem checkout_lone (c : Clients) (name : String) (ctx : Context) :
    (c.lone name (some ctx)).checkout name = .ok (ctx, c.lone name none) := by
  unfold checkout lone
  rw [NameMap.get?_single, if_pos rfl, NameMap.put_single]

/-- The context goes back to the one slot under the slot's name, whatever its own is. -/
theorem checkin_lone (c : Clients) (name : String) (ctx : Context) :
    (c.lone name none).checkin name ctx = (none, c.lone name (some ctx)) := by
  have hslot : (c.lone name none).slotFor name ctx = name := by
    unfold slotFor
    split
    next hown => exact (NameMap.contains_single ..).mp hown
    next => rfl
  unfold checkin
  dsimp only
  rw [hslot, lone, NameMap.get?_single, if_pos rfl]
  exact congrArg (none, ·) (congrArg (Clients.mk · _) (NameMap.put_single ..))

/-- If the slot goes by another name, the client's is not found any more, whether the context finds
the slot or not. -/
theorem checkin_lost (c : Clients) (hne : name ≠ other) (ctx : Context) :
    ∃ slot, ((c.lone other none).checkin name ctx).2 = c.lone other slot := by
  -- the context was renamed along with the slot, or it was not, when a draft renamed the slot
  by_cases hown : ctx.name = other
  · have hslot : (c.lone other none).slotFor name ctx = other :=
      (if_pos ((NameMap.contains_single ..).mpr hown)).trans hown
    unfold checkin
    dsimp only
    rw [hslot, lone, NameMap.get?_single, if_pos rfl]
    exact ⟨some ctx, congrArg (Clients.mk · _) (NameMap.put_single ..)⟩
  · have hslot : (c.lone other none).slotFor name ctx = name :=
      if_neg (mt (NameMap.contains_single ..).mp hown)
    unfold checkin
    dsimp only
    rw [hslot, lone, NameMap.get?_single, if_neg hne]
    exact ⟨none, rfl⟩

theorem checkout_lone_of_ne (c : Clients) (hne : name ≠ other) (slot : Option Context) :
    (c.lone other slot).checkout name = .error (.registry (.notFound "client" name)) := by
  unfold checkout lone
  rw [NameMap.get?_single, if_neg hne]
  rfl

theorem Vacant.lone_of_add {clients : Clients} {ctx : Context} (h : c.Vacant 0)
    (hadd : c.add ctx = .ok clients) : clients = clients.lone ctx.name (some ctx) := by
  obtain ⟨-, rfl⟩ := add_eq_ok hadd
  obtain ⟨⟨kind, entries⟩, nextNumber⟩ := c
  obtain rfl := List.eq_nil_of_length_eq_zero h.length
  obtain rfl : kind = "client" := h.kind
  rfl

theorem context?_lone (c : Clients) (slot : Option Context) :
    (c.lone other slot).context? name = if name = other then slot else none := by
  unfold context? lone
  rw [NameMap.get?_single]
  split <;> rfl

end Clients

namespace Editor

variable {s : Scene} {client other : String}

theorem checkin_lone (h : s.editor.clients = s.editor.clients.lone client none) (ctx : Context) :
    s.editor.checkin client ctx =
      { s.editor with clients := s.editor.clients.lone client (some ctx) } := by
  unfold checkin
  rw [h, Clients.checkin_lone]
  rfl

/-- The one client stands in its slot when it has come in. -/
theorem lone_checkin (h : s.editor.clients = s.editor.clients.lone client none) (ctx : Context) :
    (s.editor.checkin client ctx).clients =
      (s.editor.checkin client ctx).clients.lone client (some ctx) := by
  rw [checkin_lone h]
  rfl

/-- The scene in which the one client is out. -/
def serving (e : Editor) (client : String) (ctx : Context) : Scene :=
  ⟨{ e with clients := e.clients.lone client none }, ctx⟩

theorem checkin_serving {e : Editor} {ctx : Context}
    (h : e.clients = e.clients.lone client (some ctx)) :
    (e.serving client ctx).editor.checkin client (e.serving client ctx).context = e := by
  have hin := checkin_lone (s := e.serving client ctx) rfl ctx
  exact hin.trans (congrArg (fun clients => ({ e with clients } : Editor)) h.symm)

/-- What is done in a client that has come in is done in the scene that it came from. -/
theorem perform_inClient_lone (h : s.editor.clients = s.editor.clients.lone client none)
    (act : Act Scene Unit) :
    (inClient client act).perform (s.editor.checkin client s.context) =
      ((act.perform s).1,
        (act.perform s).2.editor.checkin client (act.perform s).2.context) := by
  have hout : ({ s.editor with clients := s.editor.clients.lone client none } : Editor) =
      s.editor := by
    rw [← h]
  rw [checkin_lone h, perform_inClient]
  dsimp only
  rw [Clients.checkout_lone]
  dsimp only
  rw [hout]

theorem perform_inClient_lost (h : s.editor.clients = s.editor.clients.lone other none)
    (hne : client ≠ other) (act : Act Scene Unit) :
    (inClient client act).perform (s.editor.checkin client s.context) =
      (.error (.registry (.notFound "client" client)), s.editor.checkin client s.context) := by
  obtain ⟨slot, hslot⟩ := s.editor.clients.checkin_lost hne s.context
  rw [← h] at hslot
  rw [perform_inClient, clients_checkin, hslot, Clients.checkout_lone_of_ne _ hne]

end Editor

/-! ## Sessions -/

namespace Session

variable {α β : Type}

@[simp] theorem perform_get (e : Editor) : perform (get : SessionAct Editor) e = (.ok e, e) := rfl

@[simp] theorem perform_set (e e' : Editor) :
    perform (set e' : SessionAct PUnit) e = (.ok ⟨⟩, e') := rfl

theorem perform_bind (act : SessionAct α) (f : α → SessionAct β) (e : Editor) :
    perform (act >>= f) e = match perform act e with
      | (.ok a, t) => perform (f a) t
      | (.error error, t) => (.error error, t) := by
  unfold perform
  rw [ExceptT.run_bind, StateT.run_bind, Id.run_bind]
  rcases (StateT.run (ExceptT.run act) e).run with ⟨_ | _, t⟩ <;> rfl

theorem perform_bind_ok {act : SessionAct α} {f : α → SessionAct β} {e e' : Editor} {a : α}
    (h : perform act e = (.ok a, e')) : perform (act >>= f) e = perform (f a) e' := by
  rw [perform_bind, h]

theorem perform_bind_error {act : SessionAct α} {f : α → SessionAct β} {e e' : Editor}
    {error : SessionError} (h : perform act e = (.error error, e')) :
    perform (act >>= f) e = (.error error, e') := by
  rw [perform_bind, h]

theorem perform_bind_eq_ok {act : SessionAct α} {f : α → SessionAct β} {e e' : Editor} {b : β} :
    perform (act >>= f) e = (.ok b, e') ↔
      ∃ a between, perform act e = (.ok a, between) ∧ perform (f a) between = (.ok b, e') := by
  rw [perform_bind]
  constructor
  · intro h
    rcases hact : perform act e with ⟨_ | a, between⟩
    · rw [hact] at h
      cases h
    · rw [hact] at h
      exact ⟨a, between, rfl, h⟩
  · rintro ⟨a, between, hact, hf⟩
    rw [hact]
    exact hf

theorem perform_lift (wrap : CommandError → SessionError) (act : Act Editor α) (e : Editor) :
    perform (lift wrap act) e = ((act.perform e).1.mapError wrap, (act.perform e).2) := by
  rw [lift, perform_bind_ok (perform_get e)]
  dsimp only
  rw [perform_bind_ok (perform_set _ _)]
  rcases act.perform e with ⟨_ | _, t⟩ <;> rfl

/-- Runs the lines one after another, and then the keys, up to the first failure: what a session is
to do in the context of its client. -/
def follow : List String → Option String → Scene → Except SessionError Unit × Scene
  | line :: lines, keys, s =>
    match (Scene.execute {} line).perform s with
    | (.ok _, t) => follow lines keys t
    | (.error error, t) => (.error (.commandLine line error), t)
  | [], none, s => (.ok (), s)
  | [], some text, s =>
    match Key.readSequence text with
    | .error error => (.error (.keys error), s)
    | .ok keys =>
      let done := (Scene.pressAll Scene.execute keys).perform s
      (done.1.mapError .command, done.2)

theorem moves_follow (lines : List String) (keys : Option String) (s : Scene) :
    Scene.Moves s (follow lines keys s).2 := by
  induction lines generalizing s with
  | nil =>
    rcases keys with _ | text
    · exact .refl s
    · rw [follow]
      cases Key.readSequence text with
      | error error => exact .refl s
      | ok keys => exact Scene.moving_pressAll Scene.moving_execute keys s
  | cons line lines ih =>
    have hline := Scene.moving_execute {} line s
    rw [follow]
    rcases hran : (Scene.execute {} line).perform s with ⟨error | _, t⟩
    · rw [hran] at hline
      exact hline
    · rw [hran] at hline
      exact hline.trans (ih t)

/-- **`Found client lines keys s`** — whenever a line or keys are about to run, there is a client of
that name. -/
def Found (client : String) : List String → Option String → Scene → Prop
  | line :: lines, keys, s => s.editor.clients.slots.contains client ∧
    ∀ t, (Scene.execute {} line).perform s = (.ok (), t) → Found client lines keys t
  | [], none, _ => True
  | [], some text, s =>
    ∀ keys, Key.readSequence text = .ok keys → s.editor.clients.slots.contains client

/-- **`Lost client done`** — a line, or the keys, failed since there is no client of that name, and
so there is no text. -/
def Lost (client : String) (done : Except SessionError Unit × Editor) : Prop :=
  let error : CommandError := .registry (.notFound "client" client)
  (done.1 = .error (.command error) ∨ ∃ line, done.1 = .error (.commandLine line error)) ∧
    clientText done.2 client = .error (.clientGone client)

/-! ### Runs -/

section Run

variable {s : Scene} {client name : String}

theorem contains_lone (h : s.editor.clients = s.editor.clients.lone name none) :
    s.editor.clients.slots.contains client = true ↔ client = name := by
  rw [h]
  exact NameMap.contains_single ..

/-- What a session does in its client is done in the scene that the client came from. -/
theorem perform_inClient_of_eq (h : s.editor.clients = s.editor.clients.lone client none)
    (wrap : CommandError → SessionError) (act : Act Scene Unit) :
    perform (lift wrap (Editor.inClient client act)) (s.editor.checkin client s.context) =
      ((act.perform s).1.mapError wrap,
        (act.perform s).2.editor.checkin client (act.perform s).2.context) := by
  rw [perform_lift, Editor.perform_inClient_lone h]

theorem perform_inClient_of_ne (h : s.editor.clients = s.editor.clients.lone name none)
    (hne : client ≠ name) (wrap : CommandError → SessionError) (act : Act Scene Unit) :
    perform (lift wrap (Editor.inClient client act)) (s.editor.checkin client s.context) =
      (.error (wrap (.registry (.notFound "client" client))),
        s.editor.checkin client s.context) := by
  rw [perform_lift, Editor.perform_inClient_lost h hne]
  rfl

/-- After a run, the text is that of the context's document, if the client has its name. -/
theorem clientText_checkin (hs : s.editor.clients.Vacant 1) :
    clientText (s.editor.checkin client s.context) client =
      if s.editor.clients.slots.contains client then .ok (String.ofList s.document.text)
      else .error (.clientGone client) := by
  obtain ⟨name, hname⟩ := hs.exists_name
  by_cases hsame : client = name
  · rw [if_pos ((contains_lone hname).mpr hsame)]
    rw [← hsame] at hname
    rw [clientText, Editor.checkin_lone hname]
    dsimp only
    rw [Clients.context?_lone, if_pos rfl]
    rfl
  · rw [if_neg (mt (contains_lone hname).mp hsame)]
    obtain ⟨slot, hslot⟩ := s.editor.clients.checkin_lost hsame s.context
    rw [← hname] at hslot
    rw [clientText, Editor.clients_checkin, hslot, Clients.context?_lone, if_neg hsame]

theorem lost_of_ne (hs : s.editor.clients.Vacant 1)
    (h : s.editor.clients = s.editor.clients.lone name none) (hne : client ≠ name)
    {done : Except SessionError Unit × Editor} {error : SessionError}
    (herror : let cause : CommandError := .registry (.notFound "client" client)
      error = .command cause ∨ ∃ line, error = .commandLine line cause)
    (hdone : done = (.error error, s.editor.checkin client s.context)) : Lost client done := by
  subst hdone
  refine ⟨herror.imp (congrArg _) fun ⟨line, hline⟩ => ⟨line, congrArg _ hline⟩, ?_⟩
  rw [clientText_checkin hs, if_neg (mt (contains_lone h).mp hne)]

/-- The keys alone. -/
theorem perform_pressKeys (hs : s.editor.clients.Vacant 1) (text : String) :
    let done := perform (pressKeys client text) (s.editor.checkin client s.context)
    let followed := follow [] (some text) s
    (Found client [] (some text) s →
      done = (followed.1, followed.2.editor.checkin client followed.2.context)) ∧
    (¬Found client [] (some text) s → Lost client done) := by
  obtain ⟨name, hname⟩ := hs.exists_name
  rw [pressKeys, follow, Found]
  cases Key.readSequence text with
  | error error => exact ⟨fun _ => rfl, fun hlost => absurd nofun hlost⟩
  | ok keys =>
    refine ⟨fun hfound => ?_, fun hlost => ?_⟩
    · obtain rfl := (contains_lone hname).mp (hfound keys rfl)
      exact perform_inClient_of_eq hname .command _
    · have hne : client ≠ name := fun hsame => hlost fun _ _ => (contains_lone hname).mpr hsame
      exact lost_of_ne hs hname hne (.inl rfl) (perform_inClient_of_ne hname hne .command _)

theorem run_nil (client : String) (script : Arguments) :
    run client { script with commands := [] } = match script.keys with
      | some keys => pressKeys client keys
      | none => pure () := rfl

theorem run_cons (client line : String) (lines : List String) (script : Arguments) :
    run client { script with commands := line :: lines } =
      lift (.commandLine line) (Editor.executeInClient client line) >>= fun _ =>
        run client { script with commands := lines } := by
  exact bind_assoc (lift (.commandLine line) (Editor.executeInClient client line)) _ _

/-- **A run follows the context** — by induction on the lines, as long as the client is found; and
if it is not, that is why the run fails. -/
theorem perform_run (client : String) (lines : List String) (script : Arguments)
    (hs : s.editor.clients.Vacant 1) :
    let done := perform (run client { script with commands := lines })
      (s.editor.checkin client s.context)
    let followed := follow lines script.keys s
    (Found client lines script.keys s →
      done = (followed.1, followed.2.editor.checkin client followed.2.context)) ∧
    (¬Found client lines script.keys s → Lost client done) := by
  induction lines generalizing s with
  | nil =>
    rw [run_nil]
    cases script.keys with
    | none => exact ⟨fun _ => rfl, fun hlost => absurd trivial hlost⟩
    | some text => exact perform_pressKeys hs text
  | cons line lines ih =>
    obtain ⟨name, hname⟩ := hs.exists_name
    rw [run_cons, Editor.executeInClient, follow, Found, contains_lone hname]
    -- commands between two checkouts can only have renamed the slot, so there is still just one
    by_cases hsame : client = name
    · rw [← hsame] at hname
      have hline := perform_inClient_of_eq hname (.commandLine line) (Scene.execute {} line)
      have hmoves := Scene.moving_execute {} line s
      rcases hran : (Scene.execute {} line).perform s with ⟨error | _, t⟩
      · rw [hran] at hline
        rw [perform_bind_error hline]
        refine ⟨fun _ => rfl, fun hlost => absurd ⟨hsame, fun _ hok => ?_⟩ hlost⟩
        cases hok
      · rw [hran] at hline hmoves
        obtain ⟨hfollows, hloses⟩ := ih (hmoves.vacant hs)
        rw [perform_bind_ok hline]
        refine ⟨fun hfound => hfollows (hfound.2 t rfl), fun hlost => hloses fun hfound => hlost ?_⟩
        refine ⟨hsame, fun t' ht' => ?_⟩
        obtain rfl := (Prod.mk.inj ht').2
        exact hfound
    · refine ⟨fun hfound => absurd hfound.1 hsame, fun _ => ?_⟩
      exact lost_of_ne hs hname hsame (.inr ⟨line, rfl⟩)
        (perform_bind_error (perform_inClient_of_ne hname hsame (.commandLine line) _))

end Run

/-! ### The client of a session -/

/-- **`Clientless act`** — where there are no clients, the act makes none. -/
def Clientless (act : SessionAct α) : Prop :=
  ∀ e, e.clients.Vacant 0 → (perform act e).2.clients.Vacant 0

theorem Clientless.bind {act : SessionAct α} {f : α → SessionAct β} (h : Clientless act)
    (hf : ∀ a, Clientless (f a)) : Clientless (act >>= f) := by
  intro e he
  have hfirst := h e he
  rw [perform_bind]
  rcases hact : perform act e with ⟨_ | a, between⟩
  · rw [hact] at hfirst
    exact hfirst
  · rw [hact] at hfirst
    exact hf a between hfirst

theorem clientless_pure (a : α) : Clientless (pure a) := fun _ he => he

theorem clientless_mapM {f : α → SessionAct β} (h : ∀ a, Clientless (f a)) (items : List α) :
    Clientless (items.mapM f) := by
  induction items with
  | nil => exact clientless_pure []
  | cons a items ih =>
    rw [List.mapM_cons]
    exact (h a).bind fun b => ih.bind fun bs => clientless_pure _

theorem clientless_lift {wrap : CommandError → SessionError} {act : Act Editor α}
    (h : ∀ e, e.clients.Vacant 0 → (act.perform e).2.clients.Vacant 0) :
    Clientless (lift wrap act) := by
  intro e he
  rw [perform_lift]
  exact h e he

theorem clientless_createDocument (name text : String) :
    Clientless (lift .command (Editor.createDocument Scene.execute name text)) := by
  refine clientless_lift fun e he => ?_
  have hmoves := Scene.moves_createDocument ⟨e, { name, document := 0, tracker := 0 }⟩ name text
  exact hmoves.vacant he

theorem clientless_loadConfig (args : Arguments) (document : Nat) :
    Clientless (loadConfig args document) := by
  intro e he
  rw [loadConfig, perform_bind_ok (perform_get e)]
  dsimp only
  split
  · exact he
  next directory _ =>
    rw [perform_bind_ok (perform_set _ _)]
    split
    · exact he
    next config _ =>
      rw [perform_bind_ok (perform_set _ _)]
      refine Clientless.bind (clientless_lift fun e' he' => ?_) (fun _ => clientless_pure _) _ he
      rw [Scene.perform_inPassing]
      exact (Scene.moving_applyConfig config ⟨e', _⟩).vacant he'

theorem clientless_openFile (path : String) : Clientless (openFile path) := by
  intro e he
  rw [openFile, perform_bind_ok (perform_get e)]
  dsimp only
  split
  · exact he
  · rw [perform_bind_ok (perform_set _ _)]
    split
    · exact clientless_createDocument path _ _ he
    · exact clientless_createDocument path _ _ he
    · exact he

/-- The client that is opened is the only one, and has the name that is given back. -/
theorem lone_of_createClient {e e' : Editor} {document : Nat} {name : Option String}
    {client : String} (he : e.clients.Vacant 0)
    (h : perform (lift .command (Editor.createClient Scene.execute document name)) e =
      (.ok client, e')) : ∃ ctx, e'.clients = e'.clients.lone client (some ctx) := by
  rw [perform_lift] at h
  obtain ⟨number, ⟨error, hrefused⟩ | ⟨name, t, hmoves, hmade⟩⟩ :=
    Editor.perform_createClient document name e
  · rw [hrefused] at h
    cases h
  rcases hmade with ⟨error, hdropped⟩ | ⟨clients, hadd, hadded⟩
  · rw [hdropped] at h
    cases h
  · rw [hadded] at h
    obtain ⟨hclient, rfl⟩ := Prod.mk.inj h
    obtain rfl := Except.ok.inj hclient
    have hmaking : ((e.numbered number).making document name).editor.clients.Vacant 0 :=
      ⟨he.kind, he.empty, he.length⟩
    have hnamed : t.context.name = name := hmoves.name_eq hmaking
    exact ⟨t.context, hnamed ▸ (hmoves.vacant hmaking).lone_of_add hadd⟩

/-- The one client stays when its cursor is moved. -/
theorem lone_moveTo {e : Editor} {client : String} {ctx : Context}
    (he : e.clients = e.clients.lone client (some ctx)) (document : Nat) (location : FileLocation) :
    let e' := (perform (moveTo client document location) e).2
    ∃ ctx', e'.clients = e'.clients.lone client (some ctx') := by
  unfold moveTo
  cases location.line with
  | none => exact ⟨ctx, he⟩
  | some line =>
    dsimp only
    rw [perform_bind_ok (perform_get e), inClient]
    generalize Text.clamp _ _ = target
    rw [← Editor.checkin_serving he, perform_inClient_of_eq (s := e.serving client ctx) rfl,
      Scene.perform_setSelections_single]
    exact ⟨ctx, Editor.lone_checkin rfl ctx⟩

/-- **A session opens one client**. -/
theorem lone_of_start {args : Arguments} {host : Host} {client : String} {e : Editor}
    (h : perform (start args) (.new host) = (.ok client, e)) :
    ∃ ctx, e.clients = e.clients.lone client (some ctx) := by
  have hnew : (Editor.new host).clients.Vacant 0 := ⟨rfl, nofun, rfl⟩
  rw [start] at h
  obtain ⟨scratch, e₁, hscratch, h⟩ := perform_bind_eq_ok.mp h
  obtain ⟨⟨⟩, e₂, hconfig, h⟩ := perform_bind_eq_ok.mp h
  obtain ⟨documents, e₃, hfiles, h⟩ := perform_bind_eq_ok.mp h
  have h₁ : e₁.clients.Vacant 0 := by
    have hkept := clientless_createDocument scratchName "" _ hnew
    rwa [hscratch] at hkept
  have h₂ : e₂.clients.Vacant 0 := by
    have hkept := clientless_loadConfig args scratch _ h₁
    rwa [hconfig] at hkept
  have h₃ : e₃.clients.Vacant 0 := by
    have hkept := clientless_mapM (fun location => clientless_openFile location.path) args.files
      _ h₂
    rwa [hfiles] at hkept
  -- the config and hooks on the files have run without clients
  dsimp only at h
  obtain ⟨name, e₄, hclient, h⟩ := perform_bind_eq_ok.mp h
  obtain ⟨⟨⟩, e₅, hmove, h⟩ := perform_bind_eq_ok.mp h
  obtain ⟨ctx, hlone⟩ := lone_of_createClient h₃ hclient
  obtain ⟨hsame, rfl⟩ := Prod.mk.inj h
  obtain rfl := Except.ok.inj hsame
  have hmoved := lone_moveTo hlone ((documents.zip args.files).headD (scratch, default)).1
    ((documents.zip args.files).headD (scratch, default)).2
  rw [hmove] at hmoved
  exact hmoved

/-- **A session follows its client** — a session that is opened has one client. Running a script
does in the context of that client what the lines and the keys do one after another, and the text is
then that of the context's document, as long as the client keeps the name that it was opened with.
When a line or keys are to run and it has been renamed, the run fails since it is not found, and
there is no text. -/
theorem follows_client {args : Arguments} {host : Host} {client : String} {e : Editor}
    (hstart : perform (start args) (.new host) = (.ok client, e)) :
    ∃ ctx out, e.clients.entries = [(client, some ctx)] ∧
      e.clients.checkout client = .ok (ctx, out) ∧
      ∀ script : Arguments,
        let s : Scene := ⟨{ e with clients := out }, ctx⟩
        let followed := follow script.commands script.keys s
        let done := perform (run client script) e
        followed.2.context.identity = ctx.identity ∧
        (Found client script.commands script.keys s →
          done = (followed.1, followed.2.editor.checkin client followed.2.context) ∧
          clientText done.2 client =
            if followed.2.editor.clients.slots.contains client then
              .ok (String.ofList followed.2.document.text)
            else .error (.clientGone client)) ∧
        (¬Found client script.commands script.keys s → Lost client done) := by
  obtain ⟨ctx, hlone⟩ := lone_of_start hstart
  have hentries : e.clients.entries = [(client, some ctx)] := congrArg Clients.entries hlone
  have hcheckout : e.clients.checkout client = .ok (ctx, e.clients.lone client none) := by
    rw [hlone, Clients.checkout_lone]
    rfl
  refine ⟨ctx, _, hentries, hcheckout, fun script => ?_⟩
  intro s followed done
  have hs : s.editor.clients.Vacant 1 := Clients.vacant_lone _ client
  have hmoves : Scene.Moves s followed.2 := moves_follow script.commands script.keys s
  have hin : s.editor.checkin client s.context = e := Editor.checkin_serving hlone
  have hrun := perform_run client script.commands script hs
  rw [hin] at hrun
  obtain ⟨hfollows, hloses⟩ := hrun
  refine ⟨Prod.ext hmoves.context_eq.1 hmoves.context_eq.2, fun hfound => ?_, hloses⟩
  have hdone : done = (followed.1, followed.2.editor.checkin client followed.2.context) :=
    hfollows hfound
  refine ⟨hdone, ?_⟩
  rw [hdone]
  exact clientText_checkin (hmoves.vacant hs)

/-- The first line renames the client there and back, so the second one and the keys find it. -/
theorem finds_client_again :
    let args : Arguments := { client := some "one", noConfig := true }
    let script : Arguments :=
      { commands := ["nameclient two; nameclient one", "echo hello"], keys := some "ix<esc>" }
    let opened := perform (start args) (.new {})
    let done := perform (run "one" script) opened.2
    opened.1 = .ok "one" ∧ ∃ ctx out, opened.2.clients.checkout "one" = .ok (ctx, out) ∧
      let s : Scene := ⟨{ opened.2 with clients := out }, ctx⟩
      let followed := follow script.commands script.keys s
      Found "one" script.commands script.keys s ∧ followed.1 = .ok () ∧
      done = (.ok (), followed.2.editor.checkin "one" followed.2.context) ∧
      clientText done.2 "one" = .ok "x" := by
  intro args script opened done
  have hopened : opened.1 = .ok "one" := by decide +kernel
  have hrun : (fun done : Except SessionError Unit × Editor => (done.1, clientText done.2 "one"))
      (perform (run "one" script) (perform (start args) (.new {})).2) = (.ok (), .ok "x") := by
    decide +kernel
  obtain ⟨hran, htext⟩ := Prod.mk.inj hrun
  obtain ⟨ctx, out, -, hcheckout, hscript⟩ := follows_client (Prod.ext hopened rfl)
  obtain ⟨-, hfollows, hloses⟩ := hscript script
  have hfound :
      Found "one" script.commands script.keys ⟨{ opened.2 with clients := out }, ctx⟩ := by
    by_contra hlost
    obtain ⟨hfailed | ⟨line, hfailed⟩, -⟩ := hloses hlost <;> cases hran.symm.trans hfailed
  have hdone := (hfollows hfound).1
  have hfollowed := (congrArg Prod.fst hdone).symm.trans hran
  exact ⟨hopened, ctx, out, hcheckout, hfound, hfollowed, hfollowed ▸ hdone, htext⟩

/-- The first line renames the client, and the second one fails for want of it, though both lines
and the keys succeed in its context. -/
theorem loses_renamed_client :
    let args : Arguments := { client := some "one", noConfig := true }
    let script : Arguments :=
      { commands := ["nameclient two", "echo hello"], keys := some "ix<esc>" }
    let opened := perform (start args) (.new {})
    let done := perform (run "one" script) opened.2
    opened.1 = .ok "one" ∧
      done.1 = .error (.commandLine "echo hello" (.registry (.notFound "client" "one"))) ∧
      clientText done.2 "one" = .error (.clientGone "one") ∧
      ∀ ctx out, opened.2.clients.checkout "one" = .ok (ctx, out) →
        let followed := follow script.commands script.keys ⟨{ opened.2 with clients := out }, ctx⟩
        followed.1 = .ok () ∧ followed.2.document.text = ['x'] := by
  intro args script opened done
  have hopened : opened.1 = .ok "one" := by decide +kernel
  have hrun : (fun done : Except SessionError Unit × Editor => (done.1, clientText done.2 "one"))
      (perform (run "one" script) (perform (start args) (.new {})).2) =
        (.error (.commandLine "echo hello" (.registry (.notFound "client" "one"))),
          .error (.clientGone "one")) := by decide +kernel
  obtain ⟨hran, htext⟩ := Prod.mk.inj hrun
  have hfollowed : (opened.2.clients.checkout "one").map (fun found =>
      (fun followed : Except SessionError Unit × Scene => (followed.1, followed.2.document.text))
        (follow script.commands script.keys ⟨{ opened.2 with clients := found.2 }, found.1⟩)) =
      .ok (.ok (), ['x']) := by decide +kernel
  refine ⟨hopened, hran, htext, fun ctx out hcheckout => ?_⟩
  rw [hcheckout] at hfollowed
  exact Prod.mk.inj (Except.ok.inj hfollowed)

end Session

end ModalEdit
