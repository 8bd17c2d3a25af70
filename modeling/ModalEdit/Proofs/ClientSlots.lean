import ModalEdit.Clients
import ModalEdit.Proofs.NamedEntries

/-!
# Which contexts the clients hold

Checking a context out and in, and renaming a client, move contexts between slots and let none
appear from nowhere: what is in a slot afterwards was in one before, or is the context that was put
back.
-/

namespace ModalEdit

/-- **`c.Holds ctx`** — `ctx` is in the slot of a client. -/
def Clients.Holds (c : Clients) (ctx : Context) : Prop :=
  ∃ name, (name, some ctx) ∈ c.slots.entries

namespace Clients

variable {c clients : Clients} {name : String} {ctx other : Context}

theorem holds_of_checkout (h : c.checkout name = .ok (other, clients)) :
    c.Holds other ∧ ∀ ctx, clients.Holds ctx → c.Holds ctx := by
  unfold checkout at h
  split at h
  · cases h
  · cases h
  next found hfound =>
    obtain ⟨rfl, rfl⟩ := Prod.mk.inj (Except.ok.inj h)
    refine ⟨⟨name, Entries.mem_of_get? hfound⟩, ?_⟩
    rintro ctx ⟨n, hmem⟩
    rcases Entries.mem_put hmem with hnone | hold
    · cases hnone
    · exact ⟨n, hold⟩

/-- A context that is put back is in a slot then, and what is dropped was in a slot, or is that
context. -/
theorem holds_of_checkin (c : Clients) (name : String) (ctx : Context) :
    (∀ old, (c.checkin name ctx).1 = some old → old = ctx ∨ c.Holds old) ∧
      ∀ held, (c.checkin name ctx).2.Holds held → held = ctx ∨ c.Holds held := by
  unfold checkin
  dsimp only
  split
  next old hold =>
    constructor
    · rintro dropped rfl
      exact .inr ⟨_, Entries.mem_of_get? hold⟩
    · rintro held ⟨n, hmem⟩
      rcases Entries.mem_put hmem with hnew | hheld
      · exact .inl (Option.some.inj hnew)
      · exact .inr ⟨n, hheld⟩
  next =>
    constructor
    · rintro dropped hdropped
      exact .inl (Option.some.inj hdropped).symm
    · exact fun held hheld => .inr hheld

theorem add_eq_ok (h : c.add ctx = .ok clients) :
    ctx.name ∉ c.slots.entries.names ∧ clients = { c with
      slots := { c.slots with entries := c.slots.entries.append ctx.name (some ctx) } } := by
  unfold add at h
  split at h
  next slots hinsert =>
    obtain ⟨hfree, rfl⟩ := NameMap.insert_eq_ok hinsert
    exact ⟨hfree, (Except.ok.inj h).symm⟩
  · cases h

theorem holds_add (h : c.add ctx = .ok clients) :
    clients.Holds other ↔ other = ctx ∨ c.Holds other := by
  obtain ⟨-, rfl⟩ := add_eq_ok h
  constructor
  · rintro ⟨n, hmem⟩
    rcases List.mem_append.mp hmem with hold | hnew
    · exact .inr ⟨n, hold⟩
    · exact .inl (Option.some.inj (Prod.mk.inj (List.mem_singleton.mp hnew)).2)
  · rintro (rfl | ⟨n, hold⟩)
    · exact ⟨other.name, List.mem_append_right _ (List.mem_singleton_self _)⟩
    · exact ⟨n, List.mem_append_left _ hold⟩

theorem holds_of_remove (h : (c.remove name).Holds other) : c.Holds other := by
  obtain ⟨n, hmem⟩ := h
  exact ⟨n, (List.mem_filter.mp hmem).1⟩

/-- Renaming a client changes nothing of a context but its name. -/
theorem holds_of_rename {target : String} (h : c.rename name target = .ok clients)
    (hctx : clients.Holds ctx) :
    ∃ held given, c.Holds held ∧ ctx = { held with name := given } := by
  unfold rename at h
  split at h
  · obtain rfl := Except.ok.inj h
    exact ⟨ctx, ctx.name, hctx, rfl⟩
  split at h
  next slots hslots =>
    obtain rfl := Except.ok.inj h
    obtain ⟨n, hmem⟩ := hctx
    rcases Entries.mem_modify hmem with hkept | ⟨slot, hkept, hslot⟩
    · obtain ⟨old, hold⟩ := NameMap.mem_rename hslots hkept
      exact ⟨ctx, ctx.name, ⟨old, hold⟩, rfl⟩
    · obtain ⟨held, rfl, rfl⟩ := Option.map_eq_some_iff.mp hslot.symm
      obtain ⟨old, hold⟩ := NameMap.mem_rename hslots hkept
      exact ⟨held, target, ⟨old, hold⟩, rfl⟩
  · cases h

end Clients

end ModalEdit
