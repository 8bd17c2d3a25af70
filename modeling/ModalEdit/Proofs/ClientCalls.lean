import ModalEdit.Proofs.ClientCustody
import ModalEdit.Proofs.MovingCommands

/-!
# Every client comes home

Calls from outside make clients and run command lines in them. After every sequence of calls,
failing or not, every client is at home again, in its place and with its own context
(`clients_come_home`), unless a context without a window has renamed a client that was checked out.

A draft is such a context, and has the name of its client: if it renames it, the client's context is
not put back (`client_lost_to_draft`).
-/

namespace ModalEdit

/-! ## Calls -/

/-- A call that makes a client, or runs a command line in one. -/
inductive ClientCall where
  | create (document : Nat) (name : Option String)
  | execute (name line : String)

/-- Whether the call makes a client. -/
def ClientCall.creates : ClientCall → Bool
  | .create _ _ => true
  | .execute _ _ => false

namespace Editor

/-- The editor after a call, whether the call fails or not. -/
def afterCall (e : Editor) : ClientCall → Editor
  | .create document name => ((createClient Scene.execute document name).perform e).2
  | .execute name line => ((executeInClient name line).perform e).2

/-- The editor after calls in order. -/
def afterCalls (e : Editor) (calls : List ClientCall) : Editor := calls.foldl afterCall e

theorem perform_inClient {α : Type} (name : String) (act : Act Scene α) (e : Editor) :
    (inClient name act).perform e = match e.clients.checkout name with
      | .ok (ctx, clients) =>
        let done := act.perform ⟨{ e with clients }, ctx⟩
        (done.1, done.2.editor.checkin name done.2.context)
      | .error error => (.error error, e) := by
  rw [inClient, Act.perform_bind_ok (Act.perform_get e), Act.perform_bind, Act.perform_ofExcept]
  cases e.clients.checkout name with
  | ok found => simp only [Act.perform_bind, Act.perform_set, Act.perform_ofExcept]
  | error error => rfl

/-- The editor with another number to try first for the next generated name. -/
def numbered (e : Editor) (nextNumber : Nat) : Editor :=
  { e with clients := { e.clients with nextNumber } }

/-- The scene in which hooks run when a client is made. -/
def making (e : Editor) (document : Nat) (client : String) : Scene :=
  let (context, editor) := e.newContext client document (some {}) default
  ⟨editor, context⟩

theorem clientName_eq (name : Option String) (e : Editor) :
    ∃ number, ((clientName name).perform e).2 = e.numbered number := by
  unfold clientName
  rw [Act.perform_bind_ok (Act.perform_get e)]
  cases name with
  | none => exact ⟨e.clients.freeNumber + 1, rfl⟩
  | some name =>
    refine ⟨e.clients.nextNumber, ?_⟩
    dsimp only
    split <;> rfl

theorem addClient_cases (ctx : Context) (e : Editor) :
    (∃ error, (addClient ctx).perform e = (.error error, e.release ctx)) ∨
      ∃ clients, e.clients.add ctx = .ok clients ∧
        (addClient ctx).perform e = (.ok (), { e with clients }) := by
  unfold addClient
  rw [Act.perform_bind_ok (Act.perform_get e)]
  cases hadd : e.clients.add ctx with
  | ok clients => exact .inr ⟨clients, rfl, rfl⟩
  | error error => exact .inl ⟨error, rfl⟩

/-- A client may be refused for want of a name. Otherwise hooks run in its context, which then gets
a slot, or is dropped if they fail or the name is taken by then. -/
theorem perform_createClient (document : Nat) (name : Option String) (e : Editor) :
    let done := (createClient Scene.execute document name).perform e
    ∃ number, (∃ error, done = (.error error, e.numbered number)) ∨
      ∃ client t, Scene.Moves ((e.numbered number).making document client) t ∧
        ((∃ error, done = (.error error, t.editor.release t.context)) ∨
          ∃ clients, t.editor.clients.add t.context = .ok clients ∧
            done = (.ok client, { t.editor with clients })) := by
  obtain ⟨number, hnumber⟩ := clientName_eq name e
  refine ⟨number, ?_⟩
  rw [createClient, Act.perform_bind]
  rcases hname : (clientName name).perform e with ⟨error | client, opened⟩
  · rw [hname] at hnumber
    exact .inl ⟨error, congrArg _ hnumber⟩
  · rw [hname] at hnumber
    obtain rfl : opened = e.numbered number := hnumber
    refine .inr ⟨client, ?_⟩
    have hmoves := Scene.obeys_runHook Scene.moving_execute "WinCreate"
      ((e.numbered number).document document).name ((e.numbered number).making document client)
    rw [making] at hmoves
    dsimp only at hmoves ⊢
    rw [Act.perform_bind_ok (Act.perform_get _), Act.perform_bind_ok (Act.perform_get _)]
    generalize (Scene.runHook Scene.execute "WinCreate" _).perform _ = done at hmoves ⊢
    refine ⟨done.2, hmoves, ?_⟩
    rcases done with ⟨error | _, t⟩
    · exact .inl ⟨error, rfl⟩
    · dsimp only
      rw [Act.perform_bind_ok (Act.perform_set _ _), Act.perform_bind]
      rcases addClient_cases t.context t.editor with ⟨error, hadd⟩ | ⟨clients, hclients, hadd⟩
      · rw [hadd]
        exact .inl ⟨error, rfl⟩
      · rw [hadd]
        exact .inr ⟨clients, hclients, rfl⟩

/-- What a call that makes a client leaves, whether it fails or not. -/
theorem create_cases (document : Nat) (name : Option String) (e : Editor) :
    ∃ number, e.afterCall (.create document name) = e.numbered number ∨
      ∃ client t, Scene.Moves ((e.numbered number).making document client) t ∧
        (e.afterCall (.create document name) = t.editor.release t.context ∨
          ∃ clients, t.editor.clients.add t.context = .ok clients ∧
            e.afterCall (.create document name) = { t.editor with clients }) := by
  obtain ⟨number, ⟨_, hfailed⟩ | ⟨client, t, hmoves, hmade⟩⟩ := perform_createClient document name e
  · exact ⟨number, .inl (congrArg Prod.snd hfailed)⟩
  · refine ⟨number, .inr ⟨client, t, hmoves, ?_⟩⟩
    rcases hmade with ⟨_, hdropped⟩ | ⟨clients, hadd, hadded⟩
    · exact .inl (congrArg Prod.snd hdropped)
    · exact .inr ⟨clients, hadd, congrArg Prod.snd hadded⟩

/-- A call that runs a command line may fail for want of the client. Otherwise the client's context
is checked out, moves are made in it, and it is checked in. -/
theorem execute_cases (name line : String) (e : Editor) :
    e.afterCall (.execute name line) = e ∨
      ∃ ctx clients t, e.clients.checkout name = .ok (ctx, clients) ∧
        Scene.Moves ⟨{ e with clients }, ctx⟩ t ∧
        e.afterCall (.execute name line) = t.editor.checkin name t.context := by
  rw [afterCall, executeInClient, perform_inClient]
  cases e.clients.checkout name with
  | error error => exact .inl rfl
  | ok found => exact .inr ⟨found.1, found.2, _, rfl, Scene.moving_execute {} line _, rfl⟩

/-- Every call continues the journal. -/
theorem journal_afterCall (e : Editor) (call : ClientCall) :
    (e.afterCall call).journal = e.journal ++ e.since (e.afterCall call) := by
  suffices ∃ happened, (e.afterCall call).journal = e.journal ++ happened by
    obtain ⟨happened, hjournal⟩ := this
    rwa [since_eq hjournal]
  cases call with
  | create document name =>
    obtain ⟨number, hfailed | ⟨client, t, hmoves, hmade⟩⟩ := create_cases document name e
    · exact ⟨[], by rw [hfailed, List.append_nil]; rfl⟩
    · rcases hmade with hdropped | ⟨clients, -, hadded⟩
      · exact ⟨_, (congrArg journal hdropped).trans hmoves.journal_eq⟩
      · exact ⟨_, (congrArg journal hadded).trans hmoves.journal_eq⟩
  | execute name line =>
    rcases execute_cases name line e with hfailed | ⟨ctx, clients, t, -, hmoves, hafter⟩
    · exact ⟨[], by rw [hfailed, List.append_nil]⟩
    · exact ⟨_, by rw [hafter, journal_checkin, hmoves.journal_eq]⟩

end Editor

/-! ### One call -/

/-- **`SameContext before after`** — two slots hold the same context. -/
def SameContext (before after : String × Option Context) : Prop :=
  after.2.map Context.identity = before.2.map Context.identity

/-- **`AllKept made before after`** — the slots `before` still hold the same contexts, each in its
place, and no more than `made` slots have come behind them. -/
structure AllKept (made : Nat) (before after : Entries (Option Context)) : Prop where
  same : List.Forall₂ SameContext before (after.take before.length)
  length_le : after.length ≤ before.length + made

namespace AllKept

variable {made later : Nat} {before between after : Entries (Option Context)}

theorem of_same (h : List.Forall₂ SameContext before after) : AllKept made before after := by
  refine ⟨?_, h.length_eq ▸ Nat.le_add_right _ _⟩
  rwa [h.length_eq, List.take_length]

theorem refl (slots : Entries (Option Context)) : AllKept made slots slots :=
  .of_same (List.forall₂_same.mpr fun _ _ => rfl)

theorem of_append {entry : String × Option Context} (h : List.Forall₂ SameContext before between) :
    AllKept 1 before (between ++ [entry]) := by
  refine ⟨?_, ?_⟩
  · rwa [h.length_eq, List.take_left]
  · rw [List.length_append, h.length_eq]
    rfl

theorem trans (h : AllKept made before between) (h' : AllKept later between after) :
    AllKept (made + later) before after := by
  have hle : before.length ≤ between.length := by
    rw [h.same.length_eq, List.length_take]
    exact Nat.min_le_right _ _
  constructor
  · have hfirst := List.forall₂_take before.length h'.same
    rw [List.take_take, Nat.min_eq_left hle] at hfirst
    exact forall₂_comp h.same hfirst fun _ _ _ hab hbc => hbc.trans hab
  · have hbetween := h.length_le
    have hafter := h'.length_le
    omega

end AllKept

/-- **`c.AtHome`** — the clients are tidy, and no slot is empty. -/
structure Clients.AtHome (c : Clients) : Prop extends c.Tidy where
  full : ∀ entry ∈ c.entries, entry.2.isSome

namespace Clients.AtHome

variable {c c' : Clients} {hand hand' : Option String} {ctx : Context}

theorem of_none (h : c.entries = []) : c.AtHome := by
  refine ⟨⟨?_, ?_⟩, ?_⟩
  · rw [h]
    exact List.nodup_nil
  · intro name ctx hmem
    rw [h] at hmem
    cases hmem
  · intro entry hmem
    rw [h] at hmem
    cases hmem

theorem carried (h : c.AtHome) (htidy : c'.Tidy)
    (hcarried : List.Forall₂ (Carried hand hand') c.entries c'.entries) :
    c'.AtHome ∧ List.Forall₂ SameContext c.entries c'.entries := by
  refine ⟨⟨htidy, fun entry hentry => ?_⟩, hcarried.imp fun _ _ hstep => hstep.identity⟩
  obtain ⟨old, hold, hstep⟩ := exists_of_forall₂_right hcarried hentry
  have hsome := h.full old hold
  rw [Option.isSome_iff_ne_none] at hsome ⊢
  exact fun hnone => hsome (hstep.none_iff.mp hnone)

/-- A client that is added has a new name. -/
theorem add (h : c.AtHome) (hwindow : ctx.window.isSome) (hadd : c.add ctx = .ok c') :
    c'.AtHome ∧ c'.entries = c.entries ++ [(ctx.name, some ctx)] := by
  obtain ⟨hfree, rfl⟩ := add_eq_ok hadd
  refine ⟨⟨⟨Entries.nodup_names_append h.distinct hfree, ?_⟩, ?_⟩, rfl⟩
  · intro name held hmem
    rcases List.mem_append.mp hmem with hold | hnew
    · exact h.named name held hold
    · obtain ⟨rfl, heq⟩ := Prod.mk.inj (List.mem_singleton.mp hnew)
      obtain rfl := Option.some.inj heq
      exact ⟨rfl, hwindow⟩
  · intro entry hmem
    rcases List.mem_append.mp hmem with hold | hnew
    · exact h.full entry hold
    · rw [List.mem_singleton.mp hnew]
      rfl

end Clients.AtHome

namespace Editor

variable {e : Editor}

theorem home_create (document : Nat) (name : Option String) (he : e.clients.AtHome)
    (hnotes : .renamed false true ∉ e.since (e.afterCall (.create document name))) :
    (e.afterCall (.create document name)).clients.AtHome ∧
      AllKept 1 e.clients.entries (e.afterCall (.create document name)).clients.entries := by
  obtain ⟨number, hfailed | ⟨client, t, hmoves, hmade⟩⟩ := create_cases document name e
  · rw [hfailed]
    exact ⟨⟨⟨he.distinct, he.named⟩, he.full⟩, .refl _⟩
  have horderly : Scene.Orderly ((e.numbered number).making document client) :=
    ⟨⟨he.distinct, he.named⟩, fun _ _ => .inr he.full⟩
  have hwindow : t.context.window.isSome := hmoves.isSome_window
  rcases hmade with hdropped | ⟨clients, hadd, hadded⟩
  · rw [hdropped] at hnotes ⊢
    have hinside := fun hnote => hnotes (since_subset rfl [] (List.append_nil _).symm hnote)
    obtain ⟨htidy, hcarried⟩ := hmoves.carried horderly hinside
    obtain ⟨hhome, hsame⟩ := he.carried htidy hcarried
    exact ⟨hhome, .of_same hsame⟩
  · rw [hadded] at hnotes ⊢
    have hinside := fun hnote => hnotes (since_subset rfl [] (List.append_nil _).symm hnote)
    obtain ⟨htidy, hcarried⟩ := hmoves.carried horderly hinside
    obtain ⟨hhome, hsame⟩ := he.carried htidy hcarried
    obtain ⟨hhome', hentries⟩ := hhome.add hwindow hadd
    exact ⟨hhome', hentries ▸ .of_append hsame⟩

theorem home_execute (name line : String) (he : e.clients.AtHome)
    (hnotes : .renamed false true ∉ e.since (e.afterCall (.execute name line))) :
    (e.afterCall (.execute name line)).clients.AtHome ∧
      AllKept 0 e.clients.entries (e.afterCall (.execute name line)).clients.entries := by
  rcases execute_cases name line e with hfailed | ⟨ctx, clients, t, hcheckout, hmoves, hafter⟩
  · rw [hfailed]
    exact ⟨he, .refl _⟩
  · rw [hafter] at hnotes ⊢
    have hinside := fun hnote => hnotes
      (since_subset rfl [] ((journal_checkin ..).trans (List.append_nil _).symm) hnote)
    obtain ⟨horderly, hclient⟩ := Scene.orderly_of_checkout he.toTidy hcheckout
    obtain ⟨htidy, hcarried⟩ := hmoves.carried horderly hinside
    obtain ⟨hclient', hwindow⟩ := hmoves.client?_eq hclient
    rw [hclient, hclient'] at hcarried
    have hback := he.toTidy.comes_back hcheckout htidy t.context hcarried
      (congrArg₂ Prod.mk hmoves.context_eq.1 hmoves.context_eq.2) hwindow none
    rw [← clients_checkin] at hback
    obtain ⟨hhome, hsame⟩ := he.carried hback.1 hback.2
    exact ⟨hhome, .of_same hsame⟩

/-- **One call** — all clients are at home again, and none was lost. -/
theorem home_afterCall (call : ClientCall) (he : e.clients.AtHome)
    (hnotes : .renamed false true ∉ e.since (e.afterCall call)) :
    (e.afterCall call).clients.AtHome ∧
      AllKept call.creates.toNat e.clients.entries (e.afterCall call).clients.entries := by
  cases call with
  | create document name => exact home_create document name he hnotes
  | execute name line => exact home_execute name line he hnotes

/-! ### All calls -/

theorem journal_afterCalls (e : Editor) (calls : List ClientCall) :
    (e.afterCalls calls).journal = e.journal ++ e.since (e.afterCalls calls) := by
  induction calls generalizing e with
  | nil => rw [since, afterCalls, List.foldl_nil, List.drop_length, List.append_nil]
  | cons call calls ih =>
    rw [afterCalls, List.foldl_cons, ← afterCalls, since_append (e.journal_afterCall call) (ih _),
      ih, e.journal_afterCall call, List.append_assoc]

/-- **Every client comes home** — after every sequence of calls that make clients or run command
lines in them, failing or not, every client holds a context again, by its own name, and the clients
that there were hold the contexts that they held, each in its place, behind which there are only the
clients that were made: if in none of these calls a context without a window renames a client that
is checked out. -/
theorem clients_come_home (e : Editor) (calls : List ClientCall) (he : e.clients.AtHome)
    (hnotes : .renamed false true ∉ e.since (e.afterCalls calls)) :
    (e.afterCalls calls).clients.AtHome ∧
      AllKept (calls.countP ClientCall.creates) e.clients.entries
        (e.afterCalls calls).clients.entries := by
  induction calls generalizing e with
  | nil => exact ⟨he, .refl _⟩
  | cons call calls ih =>
    rw [afterCalls, List.foldl_cons, ← afterCalls] at hnotes ⊢
    rw [since_append (e.journal_afterCall call) (journal_afterCalls _ calls), List.mem_append,
      not_or] at hnotes
    obtain ⟨hhome, hkept⟩ := home_afterCall call he hnotes.1
    obtain ⟨hhome', hkept'⟩ := ih (e.afterCall call) hhome hnotes.2
    have hcount : (call :: calls).countP ClientCall.creates =
        call.creates.toNat + calls.countP ClientCall.creates := by
      rw [List.countP_cons, Nat.add_comm]
      cases call <;> rfl
    rw [hcount]
    exact ⟨hhome', hkept.trans hkept'⟩

/-- Two clients, one of which renames the other and then itself. -/
theorem clients_come_home_renamed :
    let e : Editor := { store := [.ofText "notes" "a\n"], commands := Command.coreTable }
    let calls : List ClientCall := [.create 0 (some "one"), .create 0 (some "two"),
      .execute "one" "eval -client two nameclient three; nameclient four"]
    e.clients.AtHome ∧ .renamed false true ∉ e.since (e.afterCalls calls) ∧
      (e.afterCalls calls).clients.entries.names = ["four", "three"] ∧
      (e.afterCalls calls).clients.AtHome ∧
      AllKept 2 [] (e.afterCalls calls).clients.entries := by
  intro e calls
  have he : e.clients.AtHome := .of_none rfl
  have hrun : (fun e' : Editor => (e.since e', e'.clients.entries.names)) (e.afterCalls calls) =
      ([.renamed true true, .visited "two", .renamed true true], ["four", "three"]) := by
    decide +kernel
  obtain ⟨hjournal, hnames⟩ := Prod.mk.inj hrun
  have hnotes : .renamed false true ∉ e.since (e.afterCalls calls) := by
    rw [hjournal]
    decide
  exact ⟨he, hnotes, hnames, clients_come_home e calls he hnotes⟩

/-- A draft renames the client whose context it is a draft of, and the client loses that context. -/
theorem client_lost_to_draft :
    let e : Editor := { store := [.ofText "notes" "a\n"], commands := Command.coreTable }
    let made := e.afterCall (.create 0 (some "one"))
    let after := made.afterCall (.execute "one" "eval -draft nameclient two")
    made.clients.AtHome ∧ made.clients.entries.length = 1 ∧
      after.clients.entries = [("two", none)] := by
  intro e made after
  have hmade : made.clients.AtHome := by
    refine (home_afterCall (.create 0 (some "one")) (.of_none rfl) ?_).1
    have hjournal : e.since made = [] := by decide +kernel
    rw [hjournal]
    exact List.not_mem_nil
  have hslots : (after.clients.entries.map fun slot => (slot.1, slot.2.isSome)) =
      [("two", false)] := by decide +kernel
  obtain ⟨⟨name, held⟩, hafter, hslot⟩ := List.map_eq_singleton_iff.mp hslots
  obtain ⟨rfl, hheld⟩ := Prod.mk.inj hslot
  obtain rfl := Option.isSome_eq_false_iff.mp hheld |> Option.isNone_iff_eq_none.mp
  exact ⟨hmade, by decide +kernel, hafter⟩

end Editor

end ModalEdit
