import ModalEdit.Proofs.SelectionComponents

/-!
# Selection lists under calls

A selection list is made by one of its constructors and then changed by calls, one after the other.
What each call keeps is that the list is well formed (`WellFormed.perform`), so every list that
calls lead to is valid (`calls_keep_lists`).

With that goes where the main selection is afterwards. A call that ends in `normalize` may merge it
with others; then the main selection is the only one that contains the old one
(`mainContains_normalize`). A removal adjusts the main index by hand: the list is written with the
removed selection between those before and those after it, so that what is at the new index can be
read off (`main_remove`).
-/

namespace ModalEdit

/-- **`s.Contains t`** — the range of `t` lies in that of `s`. -/
def Selection.Contains (s t : Selection) : Prop := s.start ≤ t.start ∧ t.stop ≤ s.stop

/-! ## Changes that remember -/

section Remembering

variable {σ : Type}

/-- Moves the anchor and then the cursor, by a change that may remember what it has seen. -/
def Selection.mapM (f : Coord → StateM σ Coord) (s : Selection) : StateM σ Selection := do
  let anchor ← f s.anchor
  let cursor ← f s.cursor
  return { s with anchor, cursor }

namespace SelectionList

/-- Changes every selection, in text order, by a change that may remember what it has seen. -/
def transformM (f : Selection → StateM σ Selection) (l : SelectionList) :
    StateM σ SelectionList := do
  let selections ← l.selections.mapM f
  return normalize { l with selections }

/-- Moves both ends of every selection, by a change that may remember what it has seen. -/
def mapCoordsM (f : Coord → StateM σ Coord) (l : SelectionList) : StateM σ SelectionList :=
  l.transformM (·.mapM f)

/-- A change that remembers nothing is made as `transform` makes it. -/
theorem transformM_pure (f : Selection → Selection) (l : SelectionList) :
    l.transformM (fun s => (pure (f s) : StateM σ Selection)) = pure (l.transform f) := by
  rw [transformM, List.mapM_pure, pure_bind, transform]

theorem mapCoordsM_pure (f : Coord → Coord) (l : SelectionList) :
    l.mapCoordsM (fun c => (pure (f c) : StateM σ Coord)) = pure (l.mapCoords f) :=
  transformM_pure (·.map f) l

end SelectionList

end Remembering

namespace SelectionList

/-! ## Calls -/

/-- A call on a selection list. -/
inductive Call where
  | push (s : Selection)
  | remove (index : Nat)
  | setMain (index : Nat)
  | rotateMain
  | transform {σ : Type} (f : Selection → StateM σ Selection) (remembered : σ)
  | mapCoords {σ : Type} (f : Coord → StateM σ Coord) (remembered : σ)

/-- Carries a call out, unless it makes a selection the main one that there is not. -/
def perform (l : SelectionList) : Call → Option SelectionList
  | .push s => some (l.push s)
  | .remove index => some (l.remove index)
  | .setMain index => l.setMain? index
  | .rotateMain => some l.rotateMain
  | .transform f remembered => some ((l.transformM f).run' remembered).run
  | .mapCoords f remembered => some ((l.mapCoordsM f).run' remembered).run

/-- Carries calls out one after the other. -/
def run (l : SelectionList) : List Call → Option SelectionList
  | [] => some l
  | call :: calls => (l.perform call).bind fun next => next.run calls

/-- **`Made l`** — a constructor makes the list. -/
inductive Made : SelectionList → Prop
  | ofMain (main : Selection) (others : List Selection) : Made (ofMain main others)
  | ofList {selections : List Selection} {mainIndex : Nat} {l : SelectionList} :
    ofList? selections mainIndex = .ok l → Made l
  | single (s : Selection) : Made (single s)
  | default : Made default

variable {l r : SelectionList}

theorem Made.wellFormed (h : Made l) : l.WellFormed := by
  cases h with
  | ofMain main others => exact normalize_wellFormed (Nat.zero_lt_succ _)
  | @ofList selections mainIndex _ hlist =>
    unfold ofList? at hlist
    split at hlist
    · cases hlist
    split at hlist
    · cases hlist
    next hmain =>
      obtain rfl := Except.ok.inj hlist
      exact normalize_wellFormed (not_le.mp hmain)
  | single s => exact single_wellFormed s
  | default => exact single_wellFormed _

/-! ## One call -/

section Remembering

variable {σ : Type}

theorem length_mapM (f : Selection → StateM σ Selection) (selections : List Selection) (s : σ) :
    ((selections.mapM f).run s).run.1.length = selections.length := by
  induction selections generalizing s with
  | nil => rfl
  | cons x selections ih =>
    rw [List.mapM_cons, StateT.run_bind, Id.run_bind, StateT.run_bind, Id.run_bind]
    exact congrArg Nat.succ (ih _)

theorem WellFormed.transformM (h : l.WellFormed) (f : Selection → StateM σ Selection)
    (remembered : σ) : ((l.transformM f).run' remembered).run.WellFormed := by
  have hchanged : ((l.transformM f).run' remembered).run =
      normalize { l with selections := ((l.selections.mapM f).run remembered).run.1 } := rfl
  rw [hchanged]
  refine normalize_wellFormed ?_
  show l.mainIndex < ((l.selections.mapM f).run remembered).run.1.length
  rw [length_mapM]
  exact h.main_lt

end Remembering

/-- What is left of a list with two selections or more, told from the selections before and after
the removed one. -/
theorem remove_eq {before after : List Selection} {s : Selection}
    (hsplit : l.selections = before ++ s :: after) (hrest : before ++ after ≠ []) :
    l.remove before.length = ⟨before ++ after,
      if before.length < l.mainIndex ∨ l.mainIndex = (before ++ after).length then l.mainIndex - 1
      else l.mainIndex⟩ := by
  have herase : l.selections.eraseIdx before.length = before ++ after := by
    rw [hsplit, List.eraseIdx_append_of_length_le le_rfl, Nat.sub_self, List.eraseIdx_cons_zero]
  have hlength : l.length = (before ++ after).length + 1 := by
    rw [length, hsplit]
    simp [Nat.add_assoc]
  have hinner : 1 < l.length ∧ before.length < l.length := by
    have := List.length_pos_iff.mpr hrest
    rw [List.length_append] at this hlength
    omega
  rw [remove, if_pos hinner, herase]

theorem remove_of_le {index : Nat} (h : l.length ≤ 1 ∨ l.length ≤ index) : l.remove index = l :=
  if_neg (by omega)

theorem WellFormed.remove (h : l.WellFormed) (index : Nat) : (l.remove index).WellFormed := by
  by_cases hinner : 1 < l.length ∧ index < l.length
  · have hlength : (l.selections.eraseIdx index).length + 1 = l.length :=
      List.length_eraseIdx_add_one hinner.2
    rw [SelectionList.remove, if_pos hinner]
    refine ⟨?_, h.separated.sublist (List.eraseIdx_sublist _ _)⟩
    have hmain := h.main_lt
    dsimp only [length] at *
    split <;> omega
  · rw [SelectionList.remove, if_neg hinner]
    exact h

theorem setMain?_eq_some {index : Nat} (h : l.setMain? index = some r) :
    index < l.length ∧ r = { l with mainIndex := index } := by
  unfold setMain? at h
  split at h
  next hindex => exact ⟨hindex, (Option.some.inj h).symm⟩
  next => cases h

/-- **One call** — it keeps the list well formed. -/
theorem WellFormed.perform (h : l.WellFormed) {call : Call} (hcall : l.perform call = some r) :
    r.WellFormed := by
  cases call with
  | push s =>
    obtain rfl := Option.some.inj hcall
    refine normalize_wellFormed ?_
    show l.mainIndex < (l.selections ++ [s]).length
    rw [List.length_append]
    exact Nat.lt_add_right _ h.main_lt
  | remove index =>
    obtain rfl := Option.some.inj hcall
    exact h.remove index
  | setMain index =>
    obtain ⟨hindex, rfl⟩ := setMain?_eq_some hcall
    exact ⟨hindex, h.separated⟩
  | rotateMain =>
    obtain rfl := Option.some.inj hcall
    exact ⟨Nat.mod_lt _ (Nat.zero_lt_of_lt h.main_lt), h.separated⟩
  | transform f remembered =>
    obtain rfl := Option.some.inj hcall
    exact h.transformM f remembered
  | mapCoords f remembered =>
    obtain rfl := Option.some.inj hcall
    exact h.transformM _ remembered

/-- **A run of calls** — by induction on the calls, each of them keeping the list well formed. -/
theorem WellFormed.run (h : l.WellFormed) {calls : List Call} (hrun : l.run calls = some r) :
    r.WellFormed := by
  induction calls generalizing l with
  | nil =>
    obtain rfl := Option.some.inj hrun
    exact h
  | cons call calls ih =>
    obtain ⟨next, hcall, hrest⟩ := Option.bind_eq_some_iff.mp hrun
    exact ih (h.perform hcall) hrest

/-! ## The main selection -/

/-- **`l.MainContains t`** — the main selection contains `t`, and no other one does. -/
structure MainContains (l : SelectionList) (t : Selection) : Prop where
  contains : l.main.Contains t
  only : ∀ index s, l.get? index = some s → s.Contains t → index = l.mainIndex

theorem main_eq (h : l.mainIndex < l.length) : l.main = l.selections[l.mainIndex] := by
  rw [main, get?, List.getElem?_eq_getElem h, Option.getD_some]

theorem get?_mainIndex (h : l.mainIndex < l.length) : l.get? l.mainIndex = some l.main := by
  rw [main_eq h]
  exact List.getElem?_eq_getElem h

/-- Of selections that are apart, two do not contain the same. -/
theorem WellFormed.eq_of_contains (h : l.WellFormed) {i j : Nat} {s t u : Selection}
    (hi : l.get? i = some s) (hj : l.get? j = some t) (hs : s.Contains u) (ht : t.Contains u) :
    i = j := by
  obtain ⟨hilt, rfl⟩ := List.getElem?_eq_some_iff.mp hi
  obtain ⟨hjlt, rfl⟩ := List.getElem?_eq_some_iff.mp hj
  have hpairs := List.pairwise_iff_getElem.mp h.separated
  have hnever : ∀ {s t : Selection}, s.Contains u → t.Contains u → ¬ s.stop < t.start := by
    intro s t hs ht hlt
    have hu := lt_of_le_of_lt hs.2 (lt_of_lt_of_le hlt ht.1)
    exact absurd u.start_le_stop (not_le.mpr hu)
  rcases lt_trichotomy i j with hlt | heq | hlt
  · exact absurd (hpairs i j hilt hjlt hlt) (hnever hs ht)
  · exact heq
  · exact absurd (hpairs j i hjlt hilt hlt) (hnever ht hs)

/-- **Normalizing keeps the main selection** — what was the main one is in the one that is it now,
and in no other. -/
theorem mainContains_normalize {selections : List Selection} {mainIndex : Nat}
    (h : mainIndex < selections.length) :
    (normalize ⟨selections, mainIndex⟩).MainContains selections[mainIndex] := by
  have hwell := normalize_wellFormed (l := ⟨selections, mainIndex⟩) h
  obtain ⟨part, hparts⟩ := exists_components (l := ⟨selections, mainIndex⟩) (ne_nil_of_main_lt h)
  have hmain := hparts.main h
  have hcontains : (normalize ⟨selections, mainIndex⟩).main.Contains selections[mainIndex] := by
    rw [main_eq hwell.main_lt]
    have hstart := (hparts.start (part ⟨mainIndex, h⟩)).2 ⟨⟨mainIndex, h⟩, rfl, rfl⟩
    have hstop := (hparts.stop (part ⟨mainIndex, h⟩)).2 ⟨⟨mainIndex, h⟩, rfl, rfl⟩
    simp only [Fin.getElem_fin, hmain] at hstart hstop
    exact ⟨hstart, hstop⟩
  exact ⟨hcontains, fun index s hs hcontained =>
    hwell.eq_of_contains hs (get?_mainIndex hwell.main_lt) hcontained hcontains⟩

/-- A pushed selection may be merged with the main one, which then contains what it was. -/
theorem WellFormed.mainContains_push (h : l.WellFormed) (s : Selection) :
    (l.push s).MainContains l.main := by
  have hlt : l.mainIndex < (l.selections ++ [s]).length := by
    rw [List.length_append]
    exact Nat.lt_add_right _ h.main_lt
  have hpushed := mainContains_normalize hlt
  rwa [List.getElem_append_left h.main_lt, ← main_eq h.main_lt] at hpushed

/-- The main selection of a list that is moved contains where the old one has come to. -/
theorem mainContains_mapCoords (f : Coord → Coord) (h : l.mainIndex < l.length) :
    (l.mapCoords f).MainContains (l.main.map f) := by
  have hlt : l.mainIndex < (l.selections.map (·.map f)).length := by
    rw [List.length_map]
    exact h
  have hmoved := mainContains_normalize hlt
  rw [List.getElem_map] at hmoved
  rw [main_eq h]
  exact hmoved

/-- **Removing keeps the main selection** — unless it is the removed one; then its successor is the
main one, or the new last one. -/
theorem main_remove (h : l.WellFormed) {before after : List Selection} {s : Selection}
    (hsplit : l.selections = before ++ s :: after) (hrest : before ++ after ≠ []) :
    some (l.remove before.length).main =
      if l.mainIndex = before.length then after.head?.or before.getLast? else some l.main := by
  rw [← get?_mainIndex (h.remove before.length).main_lt, ← get?_mainIndex h.main_lt,
    remove_eq hsplit hrest, get?, get?, hsplit]
  dsimp only
  rcases lt_trichotomy l.mainIndex before.length with hlt | heq | hlt
  · -- the main selection stays in front of the removed one
    rw [if_neg (by rw [List.length_append]; omega), if_neg hlt.ne, List.getElem?_append_left hlt,
      List.getElem?_append_left hlt]
  · rw [if_pos heq]
    cases after with
    | nil =>
      rw [List.append_nil, if_pos (.inr heq), heq, List.head?_nil, Option.none_or,
        List.getLast?_eq_getElem?]
    | cons next rest =>
      rw [if_neg (by rw [List.length_append, List.length_cons]; omega), heq,
        List.getElem?_append_right le_rfl, Nat.sub_self]
      rfl
  · -- the main selection comes one place closer
    obtain ⟨behind, hbehind⟩ := Nat.exists_eq_add_of_lt hlt
    rw [if_pos (.inl hlt), if_neg hlt.ne', hbehind, Nat.add_sub_cancel,
      List.getElem?_append_right (Nat.le_add_right _ _), Nat.add_assoc,
      List.getElem?_append_right (Nat.le_add_right _ _), Nat.add_sub_cancel_left,
      Nat.add_sub_cancel_left, List.getElem?_cons_succ]

/-- **`l.KeepsMain`** — calls on the list keep its main selection in place. -/
structure KeepsMain (l : SelectionList) : Prop where
  /-- A removal takes out that selection alone, if there is another one. The main selection stays
  what it was; if it is the one that is taken out, its successor is it now, or the new last one. -/
  removes : ∀ before s after, l.selections = before ++ s :: after → before ++ after ≠ [] →
    (l.remove before.length).selections = before ++ after ∧
      some (l.remove before.length).main =
        if l.mainIndex = before.length then after.head?.or before.getLast? else some l.main
  spares : ∀ index, l.length ≤ 1 ∨ l.length ≤ index → l.remove index = l
  pushes : ∀ s, (l.push s).MainContains l.main

/-- **Calls keep selection lists valid and their main selection in place** — every list that calls
lead to from one that a constructor made. -/
theorem calls_keep_lists {made : SelectionList} {calls : List Call} (hmade : Made made)
    (hrun : made.run calls = some l) : l.validate = .ok () ∧ l.KeepsMain := by
  have hwell : l.WellFormed := hmade.wellFormed.run hrun
  refine ⟨validate_eq_ok_iff.mpr hwell, ?_, fun index => remove_of_le, hwell.mainContains_push⟩
  intro before s after hsplit hrest
  refine ⟨?_, main_remove hwell hsplit hrest⟩
  rw [remove_eq hsplit hrest]

/-- Every call once. The pushed selection takes in two others, the main one among them. The changes
remember: coordinates move the further the later they come, and only the first selection is turned
round. -/
theorem calls_keep_lists_merging :
    let made := ofMain (.point ⟨2, 0⟩) [⟨⟨0, 2⟩, ⟨0, 0⟩, ["x"]⟩, .point ⟨1, 4⟩, .point ⟨3, 0⟩]
    let calls : List Call :=
      [.push ⟨⟨2, 1⟩, ⟨1, 3⟩, []⟩, .rotateMain, .remove 0, .setMain 0,
        .mapCoords (fun c n => (⟨c.line, c.column + n⟩, n + 1)) 0,
        .transform (fun s first => (if first then s.flip else s, false)) true]
    let l : SelectionList := ⟨[⟨⟨1, 4⟩, ⟨2, 1⟩, []⟩, ⟨⟨3, 2⟩, ⟨3, 3⟩, []⟩], 0⟩
    Made made ∧ made.run calls = some l ∧ l.validate = .ok () ∧ l.KeepsMain := by
  intro made calls l
  have hmade : Made made := .ofMain _ _
  have hrun : made.run calls = some l := by
    unfold made calls l
    cbv
  exact ⟨hmade, hrun, calls_keep_lists hmade hrun⟩

end SelectionList

end ModalEdit
