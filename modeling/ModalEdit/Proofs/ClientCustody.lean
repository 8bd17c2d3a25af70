import ModalEdit.Proofs.CarriedSlots
import ModalEdit.Proofs.CommandMoves

/-!
# Clients while commands run

While a command line runs in the context of a client, the client's slot is empty, and commands can
rename it, send other commands to drafts, which have no window and the name of the client, and check
out further clients.

Every move leaves the clients tidy and carries all their slots (`Moves.carried`), as long as no
context without a window renames a client that is checked out.
-/

namespace ModalEdit

theorem Editor.clients_checkin (e : Editor) (name : String) (c : Context) :
    (e.checkin name c).clients = (e.clients.checkin name c).2 := by
  unfold checkin
  dsimp only
  split <;> rfl

namespace Scene

/-- The client in whose context commands run, if the context has a window. -/
def client? (s : Scene) : Option String := s.context.window.map fun _ => s.context.name

/-- The slots of all clients. -/
abbrev slots (s : Scene) : Entries (Option Context) := s.editor.clients.entries

/-- **`s.Orderly`** — the clients are tidy, and if the context is that of a client, then the
client's slot is empty; or it is the context of a client that is being made, and then no slot is. -/
structure Orderly (s : Scene) : Prop where
  tidy : s.editor.clients.Tidy
  own : ∀ name, s.client? = some name →
    (name, none) ∈ s.slots ∨ ∀ entry ∈ s.slots, entry.2.isSome

variable {s t : Scene}

theorem client?_of_isSome (h : s.context.window.isSome) : s.client? = some s.context.name := by
  obtain ⟨w, hw⟩ := Option.isSome_iff_exists.mp h
  rw [client?, hw]
  rfl

/-- Moves leave it whether the context has a window. -/
theorem Moves.isSome_window (h : Moves s t) :
    t.context.window.isSome = s.context.window.isSome := by
  induction h with
  | trans _ _ ih ih' => exact ih'.trans ih
  | @tables s place tables =>
    cases place with
    | editor | document => rfl
    | window => exact Option.isSome_map
  | finish => rw [context_ended]
  | tracking _ _ _ ih => exact ih
  | _ => rfl

theorem Moves.isSome_client? (h : Moves s t) : t.client?.isSome = s.client?.isSome := by
  simp only [client?, Option.isSome_map, h.isSome_window]

/-- If the context is that of a client, that stays so. -/
theorem Moves.client?_eq (h : Moves s t) {name : String} (hclient : s.client? = some name) :
    t.client? = some t.context.name ∧ t.context.window.isSome := by
  have hwindow : t.context.window.isSome := by
    rw [h.isSome_window, ← Option.isSome_map (f := fun _ => s.context.name)]
    exact Option.isSome_of_eq_some hclient
  exact ⟨client?_of_isSome hwindow, hwindow⟩

/-- Slots that are carried stay in order. -/
theorem Orderly.carried (hs : s.Orderly) (htidy : t.editor.clients.Tidy)
    (hclient : t.client?.isSome = s.client?.isSome)
    (hcarried : List.Forall₂ (Carried s.client? t.client?) s.slots t.slots) : t.Orderly := by
  refine ⟨htidy, fun name hname => ?_⟩
  obtain ⟨before, hbefore⟩ : ∃ before, s.client? = some before :=
    Option.isSome_iff_exists.mp (by rw [← hclient, hname]; rfl)
  rcases hs.own before hbefore with hempty | hfull
  · obtain ⟨⟨after, slot⟩, hmem, hstep⟩ := exists_of_forall₂_left hcarried hempty
    have hslot : slot = none := hstep.none_iff.mpr rfl
    have hafter : t.client? = some after := (hstep.own rfl).mp hbefore
    obtain rfl : name = after := Option.some.inj (hname.symm.trans hafter)
    exact .inl (hslot ▸ hmem)
  · refine .inr fun entry hentry => ?_
    obtain ⟨old, hold, hstep⟩ := exists_of_forall₂_right hcarried hentry
    have hsome := hfull old hold
    rw [Option.isSome_iff_ne_none] at hsome ⊢
    exact fun hnone => hsome (hstep.none_iff.mp hnone)

theorem carried_refl (hand : Option String) (slots : Entries (Option Context)) :
    List.Forall₂ (Carried hand hand) slots slots :=
  List.forall₂_same.mpr fun _ _ => .refl _ _

/-- The context renames its client, which is not checked out if the context has no window. -/
theorem Orderly.rename (hs : s.Orderly) {name : String} {clients : Clients}
    (hrename : s.editor.clients.rename s.context.name name = .ok clients)
    (hnote : s.renameNote ≠ .renamed false true) :
    List.Forall₂ (Carried s.client? (s.client?.map fun _ => name)) s.slots clients.entries := by
  rcases Clients.rename_eq hrename with ⟨heq, rfl⟩ | ⟨hne, -, hfree, hrenamed⟩
  · have hsame : (s.client?.map fun _ => name) = s.client? := by
      rw [client?, Option.map_map, ← heq]
      rfl
    rw [hsame]
    exact carried_refl _ _
  -- an empty slot of that name is the context's own
  have hown : (s.context.name, none) ∈ s.slots → s.client? = some s.context.name := by
    intro hempty
    refine client?_of_isSome (Bool.of_not_eq_false fun hwindowless => hnote ?_)
    have hout : s.editor.clients.isOut s.context.name = true := by
      rw [Clients.isOut, NameMap.get?, Entries.get?_of_mem hs.tidy.distinct hempty]
      rfl
    rw [renameNote, hwindowless, hout]
  have hclient : ∀ n, s.client? = some n → n = s.context.name := by
    intro n hn
    obtain ⟨_, -, rfl⟩ := Option.map_eq_some_iff.mp hn
    rfl
  have hentries : clients.entries = s.slots.map (Clients.renamed s.context.name name) := by
    rw [hrenamed]
    exact Clients.renamedEntries_eq_map hs.tidy.distinct hfree
  rw [hentries, List.forall₂_map_right_iff, List.forall₂_same]
  rintro ⟨n, slot⟩ hmem
  by_cases hn : n = s.context.name
  · subst hn
    refine ⟨?_, ?_, ?_⟩
    · cases slot <;> simp [Clients.renamed, Context.identity]
    · rintro rfl
      simp [Clients.renamed, hown hmem]
    · rintro rfl hother
      exact absurd (hown hmem) hother
  · rw [Clients.renamed, if_neg hn]
    refine ⟨rfl, fun _ => ?_, fun _ _ => rfl⟩
    constructor
    · exact fun h => absurd (hclient n h) hn
    · intro h
      obtain ⟨_, -, rfl⟩ := Option.map_eq_some_iff.mp h
      exact absurd (List.mem_map_of_mem hmem) hfree

/-- The scene in which the context of another client was checked out. -/
theorem orderly_of_checkout {e : Editor} {name : String} {other : Context} {clients : Clients}
    (he : e.clients.Tidy) (hcheckout : e.clients.checkout name = .ok (other, clients)) :
    Orderly ⟨{ e with clients }, other⟩ ∧ client? ⟨{ e with clients }, other⟩ = some name := by
  obtain ⟨hmem, hentries⟩ := Clients.checkout_eq hcheckout
  obtain ⟨rfl, hwindow⟩ := he.named name other hmem
  have hclient : client? ⟨{ e with clients }, other⟩ = some other.name := client?_of_isSome hwindow
  refine ⟨⟨he.checkout hcheckout, fun name hname => .inl ?_⟩, hclient⟩
  obtain rfl : other.name = name := Option.some.inj (hclient.symm.trans hname)
  show (other.name, none) ∈ clients.entries
  rw [hentries]
  exact List.mem_map.mpr ⟨_, hmem, if_pos rfl⟩

/-- A scene in a context without a window is in order if its clients are. -/
theorem Orderly.windowless (hs : s.Orderly) {inside : Scene}
    (hclients : inside.editor.clients = s.editor.clients) (hclient : inside.client? = none) :
    inside.Orderly :=
  ⟨hclients ▸ hs.tidy, fun name hname => absurd (hclient.symm.trans hname) (by simp)⟩

/-- What happens in a context without a window carries the slots for every other context. -/
theorem Orderly.aside (hs : s.Orderly) (inside : Scene)
    (hclients : inside.editor.clients = s.editor.clients) (hclient : inside.client? = none)
    (hmoves : Moves inside t)
    (ih : inside.Orderly → t.editor.clients.Tidy ∧
      List.Forall₂ (Carried inside.client? t.client?) inside.slots t.slots) :
    t.editor.clients.Tidy ∧ List.Forall₂ (Carried s.client? s.client?) s.slots t.slots := by
  have horderly : inside.Orderly := hs.windowless hclients hclient
  have hclient' : t.client? = none :=
    Option.isNone_iff_eq_none.mp (by rw [← Option.not_isSome, hmoves.isSome_client?, hclient]; rfl)
  obtain ⟨htidy, hcarried⟩ := ih horderly
  rw [hclient, hclient', slots, hclients] at hcarried
  exact ⟨htidy, hcarried.imp fun _ _ h => h.of_none _⟩

theorem clients_ended (s : Scene) : s.ended.editor.clients = s.editor.clients := by
  unfold ended
  dsimp only
  split <;> rfl

theorem client?_ended (s : Scene) : s.ended.client? = s.client? := by
  rw [client?, context_ended]
  rfl

/-- **All moves** — by induction on the moves: the clients stay in order and their slots are
carried, if no context without a window renames a client that is checked out. -/
theorem Moves.carried (h : Moves s t) (hs : s.Orderly)
    (hnotes : .renamed false true ∉ s.since t) :
    t.editor.clients.Tidy ∧ List.Forall₂ (Carried s.client? t.client?) s.slots t.slots := by
  induction h with
  | refl s => exact ⟨hs.tidy, carried_refl _ _⟩
  | trans h h' ih ih' =>
    rw [h.since_trans h', List.mem_append, not_or] at hnotes
    obtain ⟨htidy, hfirst⟩ := ih hs hnotes.1
    obtain ⟨htidy', hlater⟩ := ih' (hs.carried htidy h.isSome_client? hfirst) hnotes.2
    exact ⟨htidy', forall₂_comp hfirst hlater fun _ _ _ => .trans⟩
  | @rename s name clients hrename =>
    have hnote : s.renameNote ≠ .renamed false true := by
      intro hnote
      exact hnotes (hnote ▸ (Moves.refl s).mem_since rfl rfl)
    have hclient : client? ⟨{ s.editor with clients }.jot s.renameNote, { s.context with name }⟩ =
        s.client?.map fun _ => name := by
      rw [client?, client?, Option.map_map]
      rfl
    rw [hclient]
    exact ⟨hs.tidy.rename hrename, hs.rename hrename hnote⟩
  | @tables s place tables =>
    have hclient : (s.setTablesAt place tables).client? = s.client? := by
      cases place with
      | editor | document => rfl
      | window => rw [client?, client?, setTablesAt, Option.map_map]; rfl
    rw [hclient, slots, slots, clients_setTablesAt]
    exact ⟨hs.tidy, carried_refl _ _⟩
  | finish s =>
    rw [slots, slots, clients_ended, client?_ended]
    exact ⟨hs.tidy, carried_refl _ _⟩
  | retitle hrename =>
    obtain ⟨documents, id, -, rfl⟩ := Editor.renameDocument_eq hrename
    exact ⟨hs.tidy, carried_refl _ _⟩
  | @create s t name documents text hinsert hinner ih =>
    have hinside := fun hnote => hnotes (Editor.since_subset rfl [] (List.append_nil _).symm hnote)
    have haside := hs.aside (s.opening documents name text) rfl rfl hinner fun h => ih h hinside
    exact haside
  | @mute s t name documents text failed hinsert hinner ih =>
    have hinside := fun hnote => hnotes (Editor.since_subset rfl _ rfl hnote)
    have haside := hs.aside (s.opening documents name text) rfl rfl hinner fun h => ih h hinside
    exact haside
  | @draft s t hinner ih =>
    have hinside := fun hnote => hnotes (Editor.since_subset rfl _ rfl hnote)
    have haside := hs.aside s.drafted rfl rfl hinner fun h => ih h hinside
    exact haside
  | tracking id l hinner ih =>
    have hinside := fun hnote => hnotes (Editor.since_subset rfl [] (List.append_nil _).symm hnote)
    exact ih ⟨hs.tidy, hs.own⟩ hinside
  | @client s t name other clients hcheckout hinner ih =>
    have hinside := fun hnote => hnotes (Editor.since_subset rfl [.visited name]
      (congrArg (· ++ _) (Editor.journal_checkin ..)) hnote)
    obtain ⟨horderly, hclient⟩ := orderly_of_checkout hs.tidy hcheckout
    obtain ⟨htidy, hcarried⟩ := ih horderly hinside
    obtain ⟨hclient', hwindow⟩ := hinner.client?_eq hclient
    rw [hclient, hclient'] at hcarried
    have hidentity : t.context.forgetDrawing.identity = other.identity :=
      congrArg₂ Prod.mk hinner.context_eq.1 hinner.context_eq.2
    have hback := hs.tidy.comes_back hcheckout htidy t.context.forgetDrawing hcarried hidentity
      (Option.isSome_map.trans hwindow) s.client?
    rwa [← Editor.clients_checkin] at hback
  | _ => exact ⟨hs.tidy, carried_refl _ _⟩

/-- **The slot waits** — when moves have been made in a context that was checked out, an empty slot
goes by the name of that context. -/
theorem waits_of_checkout {e : Editor} {name : String} {other : Context} {clients : Clients}
    (he : e.clients.Tidy) (hcheckout : e.clients.checkout name = .ok (other, clients))
    (h : Moves ⟨{ e with clients }, other⟩ t)
    (hnotes : .renamed false true ∉ since ⟨{ e with clients }, other⟩ t) :
    t.editor.clients.Tidy ∧ (t.context.name, none) ∈ t.slots := by
  obtain ⟨horderly, hclient⟩ := orderly_of_checkout he hcheckout
  obtain ⟨htidy, hcarried⟩ := h.carried horderly hnotes
  obtain ⟨hclient', -⟩ := h.client?_eq hclient
  obtain ⟨hmem, hentries⟩ := Clients.checkout_eq hcheckout
  have hempty : (name, none) ∈ clients.entries := by
    rw [hentries]
    exact List.mem_map.mpr ⟨_, hmem, if_pos rfl⟩
  obtain ⟨⟨after, slot⟩, hafter, hstep⟩ := exists_of_forall₂_left hcarried hempty
  obtain rfl : slot = none := hstep.none_iff.mpr rfl
  obtain rfl : t.context.name = after :=
    Option.some.inj (hclient'.symm.trans ((hstep.own rfl).mp hclient))
  exact ⟨htidy, hafter⟩

end Scene

end ModalEdit
