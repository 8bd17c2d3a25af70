import Mathlib.Data.List.Nodup
import ModalEdit.NameMap

/-!
# Named entries under change

What can be looked up in named entries after a change (`get?_append`, `get?_modify`, `get?_put`,
`get?_erase`), and which entries there are then. Where names are distinct, looking up finds every
entry (`get?_of_mem`), and a change of the entry with a name is a change in one place among the
others (`map_append_cons`). Inserting and renaming in a table may fail; what there is if they do not
is in `insert_eq_ok` and `rename_eq_ok`.
-/

namespace ModalEdit.Entries

variable {V : Type} {entries : Entries V} {name other source target : String} {v w : V}

/-! ## Looking up -/

theorem mem_of_get? (h : entries.get? name = some v) : (name, v) ∈ entries := by
  obtain ⟨before, after, rfl, -⟩ := List.lookup_eq_some_iff.mp h
  exact List.mem_append_right before List.mem_cons_self

theorem get?_of_mem (hdistinct : entries.names.Nodup) (h : (name, v) ∈ entries) :
    entries.get? name = some v := by
  induction entries with
  | nil => cases h
  | cons entry rest ih =>
    obtain ⟨hnew, hrest⟩ := List.nodup_cons.mp hdistinct
    rcases List.mem_cons.mp h with rfl | hmem
    · exact List.lookup_cons_self
    · have hne : name ≠ entry.1 := by
        rintro rfl
        exact hnew (List.mem_map.mpr ⟨_, hmem, rfl⟩)
      rw [get?, List.lookup_cons, beq_false_of_ne hne]
      exact ih hrest hmem

/-- A name has one entry. -/
theorem eq_of_mem (hdistinct : entries.names.Nodup) (h : (name, v) ∈ entries)
    (h' : (name, w) ∈ entries) : v = w :=
  Option.some.inj ((get?_of_mem hdistinct h).symm.trans (get?_of_mem hdistinct h'))

theorem contains_of_mem (h : (name, v) ∈ entries) : entries.contains name = true := by
  refine Option.isSome_iff_ne_none.mpr fun hnone => ?_
  simpa using List.lookup_eq_none_iff.mp hnone (name, v) h

theorem get?_eq_none_iff : entries.get? name = none ↔ name ∉ entries.names := by
  rw [get?, List.lookup_eq_none_iff]
  constructor
  · intro h hmem
    obtain ⟨entry, hentry, rfl⟩ := List.mem_map.mp hmem
    simpa using h entry hentry
  · intro h entry hentry
    have hne : name ≠ entry.1 := fun heq => h (heq ▸ List.mem_map_of_mem hentry)
    simpa using hne

theorem contains_eq (entries : Entries V) (name : String) :
    entries.contains name = decide (name ∈ entries.names) := by
  rw [contains, Bool.eq_iff_iff, Option.isSome_iff_ne_none, Ne, get?_eq_none_iff, not_not,
    decide_eq_true_iff]

/-! ## Entries that are changed in their places -/

theorem put_of_mem (h : (name, v) ∈ entries) (w : V) :
    entries.put name w =
      entries.map fun entry => if entry.1 = name then (entry.1, w) else entry := by
  rw [put, if_pos (contains_of_mem h)]
  rfl

/-- Changes of entries that keep their names. -/
theorem names_map {f : String × V → String × V} (h : ∀ entry, (f entry).1 = entry.1) :
    names (entries.map f) = entries.names := by
  rw [names, names, List.map_map]
  exact List.map_congr_left fun entry _ => h entry

theorem names_modify (f : V → V) : (entries.modify name f).names = entries.names :=
  names_map fun entry => by split <;> rfl

theorem mem_modify {f : V → V} (h : (other, w) ∈ entries.modify name f) :
    (other, w) ∈ entries ∨ ∃ v, (other, v) ∈ entries ∧ w = f v := by
  obtain ⟨⟨n, v⟩, hold, heq⟩ := List.mem_map.mp h
  dsimp only at heq
  split at heq
  · obtain ⟨rfl, rfl⟩ := Prod.mk.inj heq
    exact .inr ⟨v, hold, rfl⟩
  · exact .inl (heq ▸ hold)

theorem get?_modify (f : V → V) : (entries.modify name f).get? other =
    if other = name then (entries.get? other).map f else entries.get? other := by
  unfold get? modify
  induction entries with
  | nil => simp
  | cons entry entries ih =>
    obtain ⟨n, w⟩ := entry
    by_cases hother : other = n
    · subst hother
      by_cases hname : other = name <;> simp [hname]
    · have hmiss : (other == n) = false := by simpa using hother
      by_cases hname : n = name
      · subst hname
        simpa [List.lookup_cons, hmiss, hother] using ih
      · simpa [List.lookup_cons, hname, hmiss] using ih

/-! ## Entries that are added -/

theorem names_append : (entries.append name v).names = entries.names ++ [name] := by
  simp [append, names]

theorem get?_append (hfree : entries.get? name = none) :
    (entries.append name v).get? other = if other = name then some v else entries.get? other := by
  unfold get? append at *
  rw [List.lookup_append]
  split
  next heq =>
    subst heq
    simp [hfree]
  next hne =>
    have hmiss : (other == name) = false := by simpa using hne
    simp [List.lookup_cons, hmiss]

theorem mem_put (h : (other, w) ∈ entries.put name v) : w = v ∨ (other, w) ∈ entries := by
  unfold put modify append at h
  split at h
  · obtain ⟨⟨n, old⟩, hold, heq⟩ := List.mem_map.mp h
    dsimp only at heq
    split at heq
    · exact .inl (Prod.mk.inj heq).2.symm
    · exact .inr (heq ▸ hold)
  · rcases List.mem_append.mp h with hold | hnew
    · exact .inr hold
    · exact .inl (Prod.mk.inj (List.mem_singleton.mp hnew)).2

theorem get?_put : (entries.put name v).get? other =
    if other = name then some v else entries.get? other := by
  unfold put contains
  cases hget : entries.get? name with
  | none =>
    simp only [Option.isSome_none, Bool.false_eq_true, if_false]
    exact get?_append hget
  | some old =>
    simp only [Option.isSome_some, if_true]
    rw [get?_modify]
    split
    next heq => simp [heq, hget]
    next => rfl

/-! ## Entries that are renamed or removed -/

/-- The values in order. -/
def values (entries : Entries V) : List V := entries.map (·.2)

theorem values_append : (entries.append name v).values = entries.values ++ [v] := by
  simp [append, values]

/-- What is taken out and put back has kept its place. -/
theorem rename_cons (v : V) (rest : Entries V) :
    rename ((name, v) :: rest) source target =
      if name = source then (target, v) :: rest else (name, v) :: rest.rename source target := by
  by_cases h : name = source
  · rw [if_pos h, rename, take?, if_pos h]
    rfl
  · rw [if_neg h, rename, take?, if_neg h, rename]
    cases rest.take? source <;> rfl

theorem values_rename : (entries.rename source target).values = entries.values := by
  induction entries with
  | nil => rfl
  | cons entry rest ih =>
    rw [rename_cons]
    split
    · rfl
    · exact congrArg (entry.2 :: ·) ih

/-- Of distinct names, at most one is the one that is changed. -/
theorem rename_eq_map (hdistinct : entries.names.Nodup) :
    entries.rename source target =
      entries.map fun entry => if entry.1 = source then (target, entry.2) else entry := by
  induction entries with
  | nil => rfl
  | cons entry rest ih =>
    obtain ⟨hnew, hrest⟩ := List.nodup_cons.mp hdistinct
    rw [rename_cons, List.map_cons]
    by_cases heq : entry.1 = source
    · have hothers : rest.map (fun entry => if entry.1 = source then (target, entry.2) else entry) =
          rest := by
        conv_rhs => rw [← List.map_id rest]
        refine List.map_congr_left fun other hother => if_neg fun hsame => hnew ?_
        exact List.mem_map.mpr ⟨other, hother, hsame.trans heq.symm⟩
      rw [if_pos heq, if_pos heq, hothers]
    · rw [if_neg heq, if_neg heq, ih hrest]

theorem nodup_names_append (hdistinct : entries.names.Nodup) (hfree : name ∉ entries.names) :
    (entries.append name v).names.Nodup := by
  rw [names_append, ← List.concat_eq_append]
  exact hdistinct.concat hfree

/-- Only the renamed entry has the new name. -/
theorem nodup_names_rename (hdistinct : entries.names.Nodup) (hfree : target ∉ entries.names) :
    (entries.rename source target).names.Nodup := by
  have hnames : (entries.rename source target).names =
      entries.names.map fun n => if n = source then target else n := by
    rw [rename_eq_map hdistinct, names, names, List.map_map, List.map_map]
    refine List.map_congr_left fun entry _ => ?_
    by_cases h : entry.1 = source <;> simp [h]
  rw [hnames]
  refine hdistinct.map_on ?_
  intro m hm n hn heq
  have hm' : m ≠ target := fun h => hfree (h ▸ hm)
  have hn' : n ≠ target := fun h => hfree (h ▸ hn)
  grind

theorem get?_erase : (entries.erase name).get? other =
    if other = name then none else entries.get? other := by
  induction entries with
  | nil => split <;> rfl
  | cons entry rest ih =>
    obtain ⟨n, v⟩ := entry
    unfold erase get? at *
    by_cases hn : n = name
    · subst hn
      rw [List.filter_cons_of_neg (by simp), ih]
      by_cases hother : other = n
      · simp [hother]
      · have hmiss : (other == n) = false := by simpa using hother
        simp [List.lookup_cons, hmiss]
    · rw [List.filter_cons_of_pos (by simpa using hn), List.lookup_cons, List.lookup_cons, ih]
      by_cases hother : other = n
      · simp [hother, hn]
      · have hmiss : (other == n) = false := by simpa using hother
        simp [hmiss]

/-! ## One entry among the others -/

section Among

variable {before after : Entries V}

theorem names_append_cons : names (before ++ (name, v) :: after) =
    before.names ++ name :: after.names := by
  simp [names]

theorem exists_append_cons (h : name ∈ entries.names) :
    ∃ before v after, entries = before ++ (name, v) :: after := by
  obtain ⟨⟨_, v⟩, hmem, rfl⟩ := List.mem_map.mp h
  obtain ⟨before, after, rfl⟩ := List.append_of_mem hmem
  exact ⟨before, v, after, rfl⟩

variable (hdistinct : (names (before ++ (name, v) :: after)).Nodup)
include hdistinct

theorem not_mem_of_nodup : name ∉ before.names ∧ name ∉ after.names := by
  rw [names_append_cons] at hdistinct
  have hname := (List.nodup_cons.mp (List.nodup_middle.mp hdistinct)).1
  rwa [List.mem_append, not_or] at hname

theorem ne_of_mem_others {entry : String × V} (h : entry ∈ before ∨ entry ∈ after) :
    entry.1 ≠ name := by
  rintro rfl
  obtain ⟨hbefore, hafter⟩ := not_mem_of_nodup hdistinct
  exact h.elim (fun hmem => hbefore (List.mem_map_of_mem hmem))
    fun hmem => hafter (List.mem_map_of_mem hmem)

theorem get?_append_cons : get? (before ++ (name, v) :: after) name = some v :=
  get?_of_mem hdistinct (List.mem_append_right before List.mem_cons_self)

/-- A change of the entry with a name changes one place. -/
theorem map_append_cons (f : String × V → String × V) :
    (before ++ (name, v) :: after).map (fun entry => if entry.1 = name then f entry else entry) =
      before ++ f (name, v) :: after := by
  have hothers {others : Entries V} (h : ∀ entry ∈ others, entry.1 ≠ name) :
      others.map (fun entry => if entry.1 = name then f entry else entry) = others := by
    conv_rhs => rw [← List.map_id others]
    exact List.map_congr_left fun entry hentry => if_neg (h entry hentry)
  rw [List.map_append, List.map_cons, if_pos rfl,
    hothers fun _ hentry => ne_of_mem_others hdistinct (.inl hentry),
    hothers fun _ hentry => ne_of_mem_others hdistinct (.inr hentry)]

theorem modify_append_cons (f : V → V) :
    modify (before ++ (name, v) :: after) name f = before ++ (name, f v) :: after :=
  map_append_cons hdistinct fun entry => (entry.1, f entry.2)

theorem rename_append_cons (target : String) :
    rename (before ++ (name, v) :: after) name target = before ++ (target, v) :: after :=
  (rename_eq_map hdistinct).trans (map_append_cons hdistinct fun entry => (target, entry.2))

theorem put_append_cons (w : V) :
    put (before ++ (name, v) :: after) name w = before ++ (name, w) :: after := by
  have hmem : (name, v) ∈ before ++ (name, v) :: after :=
    List.mem_append_right before List.mem_cons_self
  rw [put, if_pos (contains_of_mem hmem)]
  exact modify_append_cons hdistinct fun _ => w

theorem erase_append_cons : erase (before ++ (name, v) :: after) name = before ++ after := by
  have hothers {others : Entries V} (h : ∀ entry ∈ others, entry.1 ≠ name) :
      others.filter (fun entry => decide (entry.1 ≠ name)) = others :=
    List.filter_eq_self.mpr fun entry hentry => decide_eq_true (h entry hentry)
  rw [erase, List.filter_append, List.filter_cons_of_neg (by simp),
    hothers fun _ hentry => ne_of_mem_others hdistinct (.inl hentry),
    hothers fun _ hentry => ne_of_mem_others hdistinct (.inr hentry)]

end Among

theorem put_of_not_mem (h : name ∉ entries.names) : entries.put name v = entries.append name v := by
  rw [put, contains, get?_eq_none_iff.mpr h]
  rfl

theorem erase_of_not_mem (h : name ∉ entries.names) : entries.erase name = entries :=
  List.filter_eq_self.mpr fun _ hentry =>
    decide_eq_true fun heq => h (heq ▸ List.mem_map_of_mem hentry)

end ModalEdit.Entries

/-! ## Tables -/

namespace ModalEdit.NameMap

variable {V : Type} {m m' : NameMap V} {name other source target : String} {v : V}

theorem not_mem_names (h : ¬m.contains name = true) : name ∉ m.entries.names :=
  Entries.get?_eq_none_iff.mp (Option.not_isSome_iff_eq_none.mp h)

theorem insert_eq_ok (h : m.insert name v = .ok m') :
    name ∉ m.entries.names ∧ m' = { m with entries := m.entries.append name v } := by
  unfold insert at h
  split at h
  · cases h
  next hfree => exact ⟨not_mem_names hfree, (Except.ok.inj h).symm⟩

/-- A name that is free can be given. -/
theorem exists_insert (h : m.get? name = none) (v : V) : ∃ m', m.insert name v = .ok m' := by
  have hfree : m.contains name = false := by
    rw [contains, Entries.contains, ← get?, h]
    rfl
  exact ⟨_, if_neg (by simp [hfree])⟩

theorem rename_eq_ok (h : m.rename source target = .ok m') :
    (∃ v, (source, v) ∈ m.entries) ∧ (source = target ∧ m' = m ∨
      target ∉ m.entries.names ∧ m' = { m with entries := m.entries.rename source target }) := by
  unfold rename at h
  split at h
  · cases h
  next hsource =>
    have hcontains : m.contains source = true := by simpa using hsource
    obtain ⟨v, hv⟩ := Option.isSome_iff_exists.mp hcontains
    refine ⟨⟨v, Entries.mem_of_get? hv⟩, ?_⟩
    split at h
    next heq => exact .inl ⟨heq, (Except.ok.inj h).symm⟩
    split at h
    · cases h
    next hfree => exact .inr ⟨not_mem_names hfree, (Except.ok.inj h).symm⟩

/-- Renaming changes no value. -/
theorem mem_rename (h : m.rename source target = .ok m') (hv : (other, v) ∈ m'.entries) :
    ∃ old, (old, v) ∈ m.entries := by
  obtain ⟨-, ⟨-, rfl⟩ | ⟨-, rfl⟩⟩ := rename_eq_ok h
  · exact ⟨other, hv⟩
  · have hvalue : v ∈ (m.entries.rename source target).values := List.mem_map_of_mem hv
    rw [Entries.values_rename] at hvalue
    obtain ⟨⟨old, _⟩, hold, rfl⟩ := List.mem_map.mp hvalue
    exact ⟨old, hold⟩

end ModalEdit.NameMap
