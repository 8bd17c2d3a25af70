import Mathlib.Data.List.Forall2
import Mathlib.Data.List.Nodup
import ModalEdit.Proofs.ClientSlots

/-!
# What becomes of the slots of clients

Checking a context out empties a slot, checking it in fills one, and renamed a client renames one;
all others stay, and each slot keeps its place. `Carried` says what becomes of one slot while
commands run in the context of a client: it keeps its context, or stays empty, and an empty slot
keeps its name, except for that of the client itself, which goes by the name of its context.

So a context that is checked out finds its slot when it comes back, whatever that and the other
slots are called by then (`comes_back`).
-/

namespace ModalEdit

section Forall₂

variable {α β γ : Type} {R : α → β → Prop} {S : β → γ → Prop} {T : α → γ → Prop}

theorem forall₂_comp {l : List α} {m : List β} {n : List γ} (h : List.Forall₂ R l m)
    (h' : List.Forall₂ S m n) (htrans : ∀ a b c, R a b → S b c → T a c) :
    List.Forall₂ T l n := by
  induction h generalizing n with
  | nil =>
    cases h'
    exact .nil
  | cons hab _ ih =>
    cases h' with
    | cons hbc hrest => exact .cons (htrans _ _ _ hab hbc) (ih hrest)

theorem forall₂_imp_mem {S : α → β → Prop} {l : List α} {m : List β} (h : List.Forall₂ R l m)
    (himp : ∀ a ∈ l, ∀ b ∈ m, R a b → S a b) : List.Forall₂ S l m := by
  induction h with
  | nil => exact .nil
  | cons hab _ ih =>
    refine .cons (himp _ List.mem_cons_self _ List.mem_cons_self hab) (ih ?_)
    exact fun a ha b hb => himp a (List.mem_cons_of_mem _ ha) b (List.mem_cons_of_mem _ hb)

theorem exists_of_forall₂_left {l : List α} {m : List β} (h : List.Forall₂ R l m) {a : α}
    (ha : a ∈ l) : ∃ b ∈ m, R a b := by
  induction h with
  | nil => cases ha
  | cons hab _ ih =>
    rcases List.mem_cons.mp ha with rfl | hmem
    · exact ⟨_, List.mem_cons_self, hab⟩
    · obtain ⟨b, hb, hR⟩ := ih hmem
      exact ⟨b, List.mem_cons_of_mem _ hb, hR⟩

theorem exists_of_forall₂_right {l : List α} {m : List β} (h : List.Forall₂ R l m) {b : β}
    (hb : b ∈ m) : ∃ a ∈ l, R a b := by
  induction h with
  | nil => cases hb
  | cons hab _ ih =>
    rcases List.mem_cons.mp hb with rfl | hmem
    · exact ⟨_, List.mem_cons_self, hab⟩
    · obtain ⟨a, ha, hR⟩ := ih hmem
      exact ⟨a, List.mem_cons_of_mem _ ha, hR⟩

end Forall₂

/-! ## Tables of clients -/

/-- What tells a context from all others: its document, and its tracker there. -/
def Context.identity (c : Context) : Nat × Nat := (c.document, c.tracker)

namespace Clients

/-- The slots in order, with their names. -/
abbrev entries (c : Clients) : Entries (Option Context) := c.slots.entries

/-- **`c.Tidy`** — every slot has a name of its own, and a context in a slot goes by that name and
has a window. -/
structure Tidy (c : Clients) : Prop where
  distinct : c.entries.names.Nodup
  named : ∀ name ctx, (name, some ctx) ∈ c.entries → ctx.name = name ∧ ctx.window.isSome

variable {c clients : Clients} {name source target : String} {ctx other : Context}

theorem checkout_eq (h : c.checkout name = .ok (other, clients)) :
    (name, some other) ∈ c.entries ∧ clients.entries =
      c.entries.map fun entry => if entry.1 = name then (entry.1, none) else entry := by
  unfold checkout at h
  split at h
  · cases h
  · cases h
  next found hfound =>
    obtain ⟨rfl, rfl⟩ := Prod.mk.inj (Except.ok.inj h)
    have hmem := Entries.mem_of_get? hfound
    exact ⟨hmem, Entries.put_of_mem hmem none⟩

/-- A context whose own slot waits for it goes back there. -/
theorem checkin_eq (hc : c.Tidy) (h : (ctx.name, none) ∈ c.entries) (name : String) :
    (c.checkin name ctx).2.entries =
      c.entries.map fun entry => if entry.1 = ctx.name then (entry.1, some ctx) else entry := by
  have hslot : c.slotFor name ctx = ctx.name := if_pos (Entries.contains_of_mem h)
  have hget : c.slots.get? ctx.name = some none := Entries.get?_of_mem hc.distinct h
  simp only [checkin, hslot, hget]
  exact Entries.put_of_mem h (some ctx)

/-- Nothing is dropped then. -/
theorem checkin_fst (hc : c.Tidy) (h : (ctx.name, none) ∈ c.entries) (name : String) :
    (c.checkin name ctx).1 = none := by
  have hslot : c.slotFor name ctx = ctx.name := if_pos (Entries.contains_of_mem h)
  have hget : c.slots.get? ctx.name = some none := Entries.get?_of_mem hc.distinct h
  simp only [checkin, hslot, hget]

/-- An entry when `source` is renamed. -/
def renamed (source target : String) (entry : String × Option Context) :
    String × Option Context :=
  if entry.1 = source then (target, entry.2.map fun ctx => { ctx with name := target }) else entry

/-- The entries when `source` is renamed, and with it the context in that slot. -/
def renamedEntries (source target : String) (entries : Entries (Option Context)) :
    Entries (Option Context) :=
  (entries.rename source target).modify target (·.map fun ctx => { ctx with name := target })

theorem renamedEntries_eq_map {entries : Entries (Option Context)} (hdistinct : entries.names.Nodup)
    (hfree : target ∉ entries.names) :
    renamedEntries source target entries = entries.map (renamed source target) := by
  rw [renamedEntries, Entries.rename_eq_map hdistinct, Entries.modify, List.map_map]
  refine List.map_congr_left fun entry hmem => ?_
  have hother : entry.1 ≠ target := fun heq => hfree (heq ▸ List.mem_map_of_mem hmem)
  by_cases hentry : entry.1 = source
  · simp [renamed, hentry]
  · simp [renamed, hentry, hother]

/-- Renaming changes one entry, if it changes any; nothing had the new name before. -/
theorem rename_eq (h : c.rename source target = .ok clients) :
    (source = target ∧ clients = c) ∨
      (source ≠ target ∧ (∃ slot, (source, slot) ∈ c.entries) ∧ target ∉ c.entries.names ∧
        clients = { c with
          slots := { c.slots with entries := renamedEntries source target c.entries } }) := by
  unfold rename at h
  split at h
  next heq => exact .inl ⟨heq, (Except.ok.inj h).symm⟩
  next hne =>
    split at h
    next slots hslots =>
      obtain ⟨hsource, ⟨heq, -⟩ | ⟨hfree, rfl⟩⟩ := NameMap.rename_eq_ok hslots
      · exact absurd heq hne
      exact .inr ⟨hne, hsource, hfree, (Except.ok.inj h).symm⟩
    · cases h

namespace Tidy

/-- Slots that keep their names stay tidy if every context that they get is fit for them. -/
theorem of_map {f : String × Option Context → String × Option Context} (hc : c.Tidy)
    (hentries : clients.entries = c.entries.map f) (hname : ∀ entry, (f entry).1 = entry.1)
    (hslot : ∀ name ctx slot, (f (name, slot)).2 = some ctx →
      slot = some ctx ∨ (ctx.name = name ∧ ctx.window.isSome)) : clients.Tidy := by
  constructor
  · rw [hentries, Entries.names_map hname]
    exact hc.distinct
  · intro name ctx hmem
    rw [hentries] at hmem
    obtain ⟨⟨n, slot⟩, hold, heq⟩ := List.mem_map.mp hmem
    have hn : n = name := (hname (n, slot)).symm.trans (congrArg Prod.fst heq)
    subst hn
    rcases hslot n ctx slot (congrArg Prod.snd heq) with rfl | hfit
    · exact hc.named n ctx hold
    · exact hfit

theorem rename (hc : c.Tidy) (h : c.rename source target = .ok clients) : clients.Tidy := by
  rcases rename_eq h with ⟨-, rfl⟩ | ⟨-, -, hfree, rfl⟩
  · exact hc
  constructor
  · have hnames : Entries.names (renamedEntries source target c.entries) =
        (c.entries.rename source target).names :=
      Entries.names_map fun entry => by split <;> rfl
    exact hnames ▸ Entries.nodup_names_rename hc.distinct hfree
  · intro n ctx hmem
    have hentries : renamedEntries source target c.entries =
        c.entries.map (renamed source target) :=
      renamedEntries_eq_map hc.distinct hfree
    obtain ⟨⟨m, slot⟩, hold, heq⟩ := List.mem_map.mp (hentries ▸ hmem)
    unfold renamed at heq
    split at heq
    · obtain ⟨rfl, hslot⟩ := Prod.mk.inj heq
      obtain ⟨held, rfl, rfl⟩ := Option.map_eq_some_iff.mp hslot
      exact ⟨rfl, (hc.named m held hold).2⟩
    · obtain ⟨rfl, rfl⟩ := Prod.mk.inj heq
      exact hc.named m ctx hold

theorem checkout (hc : c.Tidy) (h : c.checkout name = .ok (other, clients)) : clients.Tidy := by
  refine hc.of_map (checkout_eq h).2 (fun entry => by split <;> rfl) ?_
  intro n ctx slot hslot
  dsimp only at hslot
  split at hslot
  · cases hslot
  · exact .inl hslot

theorem checkin (hc : c.Tidy) (h : (ctx.name, none) ∈ c.entries) (hwindow : ctx.window.isSome)
    (name : String) : (c.checkin name ctx).2.Tidy := by
  refine hc.of_map (checkin_eq hc h name) (fun entry => by split <;> rfl) ?_
  intro n held slot hslot
  dsimp only at hslot
  split at hslot
  next hn =>
    obtain rfl := Option.some.inj hslot
    exact .inr ⟨hn.symm, hwindow⟩
  · exact .inl hslot

end Tidy

end Clients

/-! ## What becomes of the slots -/

/-- **`Carried hand hand' before after`** — what has become of a slot: it holds the same context, or
it is still empty, and an empty slot still has its name, except for the one of the client in whose
context commands run. That client was called `hand` and is called `hand'`. -/
structure Carried (hand hand' : Option String) (before after : String × Option Context) :
    Prop where
  identity : after.2.map Context.identity = before.2.map Context.identity
  own : before.2 = none → (hand = some before.1 ↔ hand' = some after.1)
  kept : before.2 = none → hand ≠ some before.1 → after.1 = before.1

namespace Carried

variable {hand hand' hand'' : Option String} {a b c : String × Option Context}

theorem refl (hand : Option String) (a : String × Option Context) : Carried hand hand a a :=
  ⟨rfl, fun _ => Iff.rfl, fun _ _ => rfl⟩

theorem none_iff (h : Carried hand hand' a b) : b.2 = none ↔ a.2 = none := by
  rw [← Option.map_eq_none_iff (f := Context.identity), h.identity, Option.map_eq_none_iff]

theorem trans (h : Carried hand hand' a b) (h' : Carried hand' hand'' b c) :
    Carried hand hand'' a c := by
  refine ⟨h'.identity.trans h.identity, ?_, ?_⟩
  · intro hnone
    exact (h.own hnone).trans (h'.own (h.none_iff.mpr hnone))
  · intro hnone hother
    have hstill : hand' ≠ some b.1 := fun hown => hother ((h.own hnone).mpr hown)
    exact (h'.kept (h.none_iff.mpr hnone) hstill).trans (h.kept hnone hother)

/-- What happens in no client's context leaves the names of empty slots alone. -/
theorem of_none (h : Carried none none a b) (hand : Option String) : Carried hand hand a b := by
  have hname : a.2 = none → b.1 = a.1 := fun hnone => h.kept hnone (by simp)
  exact ⟨h.identity, fun hnone => by rw [hname hnone], fun hnone _ => hname hnone⟩

end Carried

/-- **There and back** — a context was checked out as `name`; the other slots were carried, while
its own came to be called like it; then it goes back there, and nothing is dropped. -/
theorem Clients.Tidy.comes_back {c out c' : Clients} {name : String} {other : Context}
    (hc : c.Tidy) (hcheckout : c.checkout name = .ok (other, out)) (hc' : c'.Tidy) (back : Context)
    (hcarried : List.Forall₂ (Carried (some name) (some back.name)) out.entries c'.entries)
    (hidentity : back.identity = other.identity) (hwindow : back.window.isSome)
    (hand : Option String) :
    (c'.checkin name back).2.Tidy ∧
      List.Forall₂ (Carried hand hand) c.entries (c'.checkin name back).2.entries := by
  obtain ⟨hmem, hout⟩ := checkout_eq hcheckout
  rw [hout, List.forall₂_map_left_iff] at hcarried
  obtain ⟨⟨n, slot⟩, hn, hstep⟩ := exists_of_forall₂_left hcarried hmem
  rw [if_pos rfl] at hstep
  -- the slot that was emptied waits under the name of the context
  obtain rfl : slot = none := hstep.none_iff.mpr rfl
  obtain rfl : back.name = n := Option.some.inj ((hstep.own rfl).mp rfl)
  refine ⟨hc'.checkin hn hwindow name, ?_⟩
  rw [checkin_eq hc' hn name, List.forall₂_map_right_iff]
  refine forall₂_imp_mem hcarried ?_
  rintro ⟨a, slot⟩ ha ⟨b, slot'⟩ hb h
  by_cases haname : a = name
  · subst haname
    rw [if_pos rfl] at h
    obtain rfl : slot = some other := Entries.eq_of_mem hc.distinct ha hmem
    obtain rfl : back.name = b := Option.some.inj ((h.own rfl).mp rfl)
    rw [if_pos rfl]
    refine ⟨congrArg some hidentity, ?_, ?_⟩ <;> rintro ⟨⟩
  · rw [if_neg haname] at h
    have hother : some name ≠ some a := fun heq => haname (Option.some.inj heq).symm
    have hbname : b ≠ back.name := by
      rintro rfl
      obtain rfl : slot' = none := Entries.eq_of_mem hc'.distinct hb hn
      exact hother ((h.own (h.none_iff.mp rfl)).mpr rfl)
    rw [if_neg hbname]
    have hkept : slot = none → b = a := fun hnone => h.kept hnone hother
    exact ⟨h.identity, fun hnone => by rw [hkept hnone], fun hnone _ => hkept hnone⟩

end ModalEdit
