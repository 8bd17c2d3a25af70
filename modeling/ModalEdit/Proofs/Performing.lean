import ModalEdit.Editor.Scene

/-!
# Performing acts

What performing an act comes to, construct by construct: an act that is a sequence performs its
parts one after the other, and stops at the first that fails, keeping what was done until then. So
what only reads before the one part that writes leaves nothing behind if it fails
(`Act.Reads.bind_atomic`). And what an editor has in its store once one document is replaced, which
is how acts change documents.
-/

namespace ModalEdit

namespace Act

variable {σ α β : Type}

@[simp] theorem perform_pure (a : α) (s : σ) : (pure a : Act σ α).perform s = (.ok a, s) := rfl

@[simp] theorem perform_throw (e : CommandError) (s : σ) :
    (throw e : Act σ α).perform s = (.error e, s) := rfl

@[simp] theorem perform_get (s : σ) : (get : Act σ σ).perform s = (.ok s, s) := rfl

@[simp] theorem perform_set (s t : σ) : (set t : Act σ PUnit).perform s = (.ok ⟨⟩, t) := rfl

@[simp] theorem perform_modify (f : σ → σ) (s : σ) :
    (modify f : Act σ PUnit).perform s = (.ok ⟨⟩, f s) := rfl

@[simp] theorem perform_attempt (act : Act σ α) (s : σ) :
    act.attempt.perform s = (.ok (act.perform s).1, (act.perform s).2) := rfl

@[simp] theorem perform_ofExcept (result : Except CommandError α) (s : σ) :
    (ofExcept result : Act σ α).perform s = (result, s) := by
  cases result <;> rfl

theorem perform_bind (act : Act σ α) (f : α → Act σ β) (s : σ) :
    (act >>= f).perform s = match act.perform s with
      | (.ok a, t) => (f a).perform t
      | (.error e, t) => (.error e, t) := by
  unfold perform
  rw [ExceptT.run_bind, StateT.run_bind, Id.run_bind]
  rcases (StateT.run (ExceptT.run act) s).run with ⟨_ | _, t⟩ <;> rfl

theorem perform_bind_ok {act : Act σ α} {f : α → Act σ β} {s t : σ} {a : α}
    (h : act.perform s = (.ok a, t)) : (act >>= f).perform s = (f a).perform t := by
  rw [perform_bind, h]

/-- A sequence that succeeds does so part by part. -/
theorem perform_bind_eq_ok {act : Act σ α} {f : α → Act σ β} {s t : σ} {b : β} :
    (act >>= f).perform s = (.ok b, t) ↔
      ∃ a u, act.perform s = (.ok a, u) ∧ (f a).perform u = (.ok b, t) := by
  rw [perform_bind]
  constructor
  · intro h
    rcases hact : act.perform s with ⟨e | a, u⟩
    · rw [hact] at h
      cases h
    · rw [hact] at h
      exact ⟨a, u, rfl, h⟩
  · rintro ⟨a, u, hact, hf⟩
    rw [hact]
    exact hf

/-- **`Reads act`** — the act changes nothing. -/
def Reads (act : Act σ α) : Prop :=
  ∀ s, (act.perform s).2 = s

/-- **`Atomic act`** — the act changes nothing if it fails. -/
def Atomic (act : Act σ α) : Prop :=
  ∀ {s t : σ} {error : CommandError}, act.perform s = (.error error, t) → t = s

theorem Reads.atomic {act : Act σ α} (h : Reads act) : Atomic act :=
  fun {s} _ _ hfailed => (congrArg Prod.snd hfailed).symm.trans (h s)

/-- What reads can come before what is atomic, but nothing that writes can. -/
theorem Reads.bind_atomic {act : Act σ α} {f : α → Act σ β} (h : Reads act)
    (h' : ∀ a, Atomic (f a)) : Atomic (act >>= f) := by
  intro s t error hfailed
  have hread := h s
  rw [perform_bind] at hfailed
  rcases hact : act.perform s with ⟨e | a, u⟩
  · rw [hact] at hread hfailed
    exact (congrArg Prod.snd hfailed).symm.trans hread
  · rw [hact] at hread hfailed
    exact (h' a hfailed).trans hread

/-- A result that is computed further is a success only if it was one. -/
theorem map_eq_ok {ε : Type} {result : Except ε α} {f : α → β} {b : β} :
    result.map f = .ok b ↔ ∃ a, result = .ok a ∧ f a = b := by
  cases result <;> simp [Except.map]

end Act

namespace Scene

@[simp] theorem perform_modifyEditor (f : Editor → Editor) (s : Scene) :
    (modifyEditor f).perform s = (.ok (), { s with editor := f s.editor }) := rfl

@[simp] theorem perform_modifyContext (f : Context → Context) (s : Scene) :
    (modifyContext f).perform s = (.ok (), { s with context := f s.context }) := rfl

theorem perform_onEditor {α : Type} (act : Act Editor α) (s : Scene) :
    (onEditor act).perform s =
      ((act.perform s.editor).1, { s with editor := (act.perform s.editor).2 }) := by
  simp only [onEditor, Act.perform_bind, Act.perform_get, Act.perform_set, Act.perform_ofExcept]

theorem perform_ofRegistry {σ α : Type} (result : Except RegistryError α) (s : σ) :
    (Act.ofRegistry result : Act σ α).perform s = (result.mapError .registry, s) := by
  cases result <;> rfl

theorem reads_ofRegistry {σ α : Type} (result : Except RegistryError α) :
    (Act.ofRegistry result : Act σ α).Reads := by
  intro s
  rw [perform_ofRegistry]

/-- Tables are replaced if their scope is there and their change succeeds, and are left else. -/
theorem perform_updateTables {α : Type} (scope : Scope)
    (f : ScopeTables → Except RegistryError (α × ScopeTables)) (s : Scene) :
    (updateTables scope f).perform s =
      match s.site scope with
      | .error error => (.error error, s)
      | .ok place =>
        match f (s.tablesAt place) with
        | .error error => (.error (.registry error), s)
        | .ok (result, tables) => (.ok result, s.setTablesAt place tables) := by
  rw [updateTables, Act.perform_bind_ok (Act.perform_get s), Act.perform_bind,
    Act.perform_ofExcept]
  cases s.site scope with
  | error error => rfl
  | ok place =>
    dsimp only
    rw [Act.perform_bind, perform_ofRegistry]
    cases f (s.tablesAt place) <;> rfl

theorem atomic_updateTables {α : Type} (scope : Scope)
    (f : ScopeTables → Except RegistryError (α × ScopeTables)) : (updateTables scope f).Atomic := by
  intro s t error hfailed
  rw [perform_updateTables] at hfailed
  split at hfailed
  · exact (congrArg Prod.snd hfailed).symm
  · split at hfailed
    · exact (congrArg Prod.snd hfailed).symm
    · cases hfailed

theorem perform_inPassing {α : Type} (ctx : Context) (act : Act Scene α) (e : Editor) :
    (inPassing ctx act).perform e =
      ((act.perform ⟨e, ctx⟩).1,
        (act.perform ⟨e, ctx⟩).2.editor.release (act.perform ⟨e, ctx⟩).2.context) := by
  simp only [inPassing, Act.perform_bind, Act.perform_get, Act.perform_set, Act.perform_ofExcept]

end Scene

/-! ## One document of an editor -/

theorem Editor.document_setDocument (e : Editor) (id other : Nat) (d : Document) :
    (e.setDocument id d).document other =
      if other = id ∧ id < e.store.length then d else e.document other := by
  simp only [setDocument, document, List.getD_eq_getElem?_getD, List.getElem?_set]
  split
  next heq =>
    subst heq
    by_cases hlt : id < e.store.length
    · simp [hlt]
    · simp [hlt]
  next hne => rw [if_neg fun h => hne h.1.symm]

theorem Editor.document_congr {e e' : Editor} (h : e'.store = e.store) (id : Nat) :
    e'.document id = e.document id := by
  rw [document, document, h]

theorem Editor.setDocument_self (e : Editor) {id : Nat} (h : id < e.store.length) :
    e.setDocument id (e.document id) = e := by
  rw [setDocument, document, List.getD_eq_getElem?_getD, List.getElem?_eq_getElem h,
    Option.getD_some, List.set_getElem_self]

/-- There is nothing in a document that is not in the store. -/
theorem Editor.document_of_le {e : Editor} {id : Nat} (h : e.store.length ≤ id) :
    e.document id = default := by
  rw [document, List.getD_eq_getElem?_getD, List.getElem?_eq_none h]
  rfl

/-- A document that has a tracker is in the store. -/
theorem Editor.lt_of_tracked? {e : Editor} {id tracker : Nat}
    (h : ((e.document id).tracked? tracker).isSome) : id < e.store.length := by
  refine Nat.lt_of_not_le fun hge => ?_
  rw [document_of_le hge] at h
  simp [Document.tracked?, default, Document.ofText] at h

end ModalEdit
