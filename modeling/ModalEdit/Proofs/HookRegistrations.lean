import Mathlib.Data.String.Basic
import ModalEdit.HookTable
import ModalEdit.Proofs.NamedEntries

/-!
# A hook table is a list of registrations

A table keeps its hooks by event. `table.Holds l` says that it holds the registrations of `l`: each
event has those of its own, in the order of `l`, and only events that have any are kept. Then
everything that can be asked of the table is told by `l` alone. Adding a hook appends a
registration, and a removal by pattern keeps the order of those that stay (`Holds.after`), so after
every sequence of calls the table holds what is left of the registrations, in the order in which
they were made (`holds_registrations`).

Nothing is assumed about filters: neither which texts are filters, nor what filters accept.
-/

namespace ModalEdit

variable {F P : Type} [FilterKind P]

/-- A hook with its event. -/
structure Registration (F P : Type) where
  event : String
  hook : Hook F P

/-- **`r.IsRemovedBy pattern`** — the hook has an id, and the pattern accepts it. -/
def Registration.IsRemovedBy (r : Registration F P) (pattern : P) : Prop :=
  r.hook.id ≠ "" ∧ FilterKind.isMatch pattern r.hook.id = true

instance (r : Registration F P) (pattern : P) : Decidable (r.IsRemovedBy pattern) :=
  inferInstanceAs (Decidable (_ ∧ _))

/-- A call that changes a table. -/
inductive HookCall (F : Type) where
  | add (event id filter : String) (callback : F)
  | remove (idPattern : String)

/-- The registrations that there are after a call. -/
def Registration.after (l : List (Registration F P)) : HookCall F → List (Registration F P)
  | .add event id filter callback =>
    match FilterKind.compile? filter with
    | some pattern => l ++ [⟨event, ⟨id, pattern, callback⟩⟩]
    | none => l
  | .remove idPattern =>
    match FilterKind.compile? idPattern with
    | some pattern => l.filter fun r => ¬ r.IsRemovedBy pattern
    | none => l

namespace HookTable

/-- The table after a call. A call that fails gives no other table. -/
def after (table : HookTable F P) : HookCall F → HookTable F P
  | .add event id filter callback =>
    match table.add event id filter callback with
    | .ok changed => changed
    | .error _ => table
  | .remove idPattern =>
    match table.remove idPattern with
    | .ok (_, changed) => changed
    | .error _ => table

section Compiling

variable {table : HookTable F P} {event id filter idPattern : String} {callback : F} {pattern : P}

theorem add_of_some (h : FilterKind.compile? filter = some pattern) :
    table.add event id filter callback = .ok (table.addHook event ⟨id, pattern, callback⟩) := by
  simp only [add, fullPattern, h, Except.map]

theorem add_of_none (h : FilterKind.compile? (P := P) filter = none) :
    table.add event id filter callback = .error (.invalidPattern filter) := by
  simp only [add, fullPattern, h, Except.map]

theorem remove_of_some (h : FilterKind.compile? idPattern = some pattern) :
    table.remove idPattern = .ok (table.size - (table.removeMatching pattern).size,
      table.removeMatching pattern) := by
  simp only [remove, fullPattern, h, Except.map]

theorem remove_of_none (h : FilterKind.compile? (P := P) idPattern = none) :
    table.remove idPattern = .error (.invalidPattern idPattern) := by
  simp only [remove, fullPattern, h, Except.map]

end Compiling

/-! ## The hooks of an event -/

section Hooks

variable {table : HookTable F P} {l : List (Registration F P)} {event other : String}

omit [FilterKind P]

theorem hooks_of_mem (hdistinct : (Entries.names table.events).Nodup) {hooks : List (Hook F P)}
    (hmem : (event, hooks) ∈ table.events) : table.hooks event = hooks :=
  congrArg (·.getD []) (Entries.get?_of_mem hdistinct hmem)

theorem hooks_of_notMem (hevent : event ∉ Entries.names table.events) : table.hooks event = [] :=
  congrArg (·.getD []) (Entries.get?_eq_none_iff.mpr hevent)

theorem hooks_addHook (hook : Hook F P) : (table.addHook event hook).hooks other =
    if other = event then table.hooks other ++ [hook] else table.hooks other := by
  unfold addHook
  split
  next hpresent =>
    obtain ⟨found, hfound⟩ := Option.isSome_iff_exists.mp hpresent
    show ((Entries.modify table.events event (· ++ [hook])).get? other).getD [] = _
    rw [Entries.get?_modify]
    split
    next heq =>
      subst heq
      simp [hooks, Entries.get?, hfound]
    next => rfl
  next habsent =>
    have hnone : Entries.get? table.events event = none := Option.not_isSome_iff_eq_none.mp habsent
    show ((Entries.append table.events event [hook]).get? other).getD [] = _
    rw [Entries.get?_append hnone]
    split
    next heq =>
      subst heq
      rw [hooks_of_notMem (Entries.get?_eq_none_iff.mp hnone)]
      rfl
    next => rfl

/-- The hooks of an event among registrations. -/
def hooksOf (l : List (Registration F P)) (event : String) : List (Hook F P) :=
  (l.filter (·.event = event)).map (·.hook)

/-- By induction on the events: each takes its own registrations out of the list. -/
theorem perm_flatMap_hooksOf {events : List String} (hdistinct : events.Nodup)
    (hcovers : ∀ r ∈ l, r.event ∈ events) : (events.flatMap (hooksOf l)).Perm (l.map (·.hook)) := by
  induction events generalizing l with
  | nil =>
    obtain rfl : l = [] := List.eq_nil_iff_forall_not_mem.mpr fun r hr => by simpa using hcovers r hr
    exact .nil
  | cons event rest ih =>
    obtain ⟨hnew, hrest⟩ := List.nodup_cons.mp hdistinct
    -- the events that follow do not see the registrations of the first one
    have hothers : rest.flatMap (hooksOf l) =
        rest.flatMap (hooksOf (l.filter fun r => !decide (r.event = event))) := by
      refine List.flatMap_congr fun other hother => ?_
      have hne : other ≠ event := fun heq => hnew (heq ▸ hother)
      unfold hooksOf
      rw [List.filter_filter]
      refine congrArg _ (List.filter_congr fun r _ => ?_)
      by_cases hr : r.event = other <;> simp [hr, hne]
    have hperm := ih (l := l.filter fun r => !decide (r.event = event)) hrest fun r hr => by
      obtain ⟨hr, hother⟩ := List.mem_filter.mp hr
      exact (List.mem_cons.mp (hcovers r hr)).resolve_left (by simpa using hother)
    rw [List.flatMap_cons, hothers]
    refine (hperm.append_left _).trans ?_
    rw [hooksOf, ← List.map_append]
    exact (List.filter_append_perm _ l).map _

end Hooks

/-! ## What a table holds -/

/-- **`table.Holds l`** — the table holds the registrations. -/
structure Holds (table : HookTable F P) (l : List (Registration F P)) : Prop where
  distinct : (Entries.names table.events).Nodup
  filled : ∀ entry ∈ table.events, entry.2 ≠ []
  hooks_eq : ∀ event, table.hooks event = hooksOf l event

variable {table : HookTable F P} {l : List (Registration F P)}

namespace Holds

omit [FilterKind P]

theorem empty : (({} : HookTable F P)).Holds [] := ⟨.nil, by simp, fun _ => rfl⟩

theorem mem_names (h : table.Holds l) {r : Registration F P} (hr : r ∈ l) :
    r.event ∈ Entries.names table.events := by
  by_contra hnot
  have hmem : r.hook ∈ hooksOf l r.event :=
    List.mem_map_of_mem (List.mem_filter.mpr ⟨hr, by simp⟩)
  rw [← h.hooks_eq, hooks_of_notMem hnot] at hmem
  cases hmem

/-- All events together have the hooks of all registrations. -/
theorem perm (h : table.Holds l) : (table.events.flatMap (·.2)).Perm (l.map (·.hook)) := by
  have hbuckets : table.events.flatMap (·.2) = (Entries.names table.events).flatMap (hooksOf l) := by
    rw [Entries.names, List.flatMap_map]
    refine List.flatMap_congr fun entry hentry => ?_
    rw [← h.hooks_eq, hooks_of_mem h.distinct hentry]
  rw [hbuckets]
  exact perm_flatMap_hooksOf h.distinct fun r hr => h.mem_names hr

theorem size_eq (h : table.Holds l) : table.size = l.length :=
  h.perm.length_eq.trans (List.length_map _)

theorem isEmpty_iff (h : table.Holds l) : table.isEmpty = true ↔ l = [] := by
  rw [isEmpty, List.isEmpty_iff]
  constructor
  · intro hevents
    refine List.eq_nil_iff_forall_not_mem.mpr fun r hr => ?_
    have hmem := h.mem_names hr
    rw [hevents] at hmem
    cases hmem
  · rintro rfl
    refine List.eq_nil_iff_forall_not_mem.mpr fun entry hentry => h.filled entry hentry ?_
    rw [← hooks_of_mem h.distinct hentry, h.hooks_eq]
    rfl

theorem addHook (h : table.Holds l) (event : String) (hook : Hook F P) :
    (table.addHook event hook).Holds (l ++ [⟨event, hook⟩]) := by
  refine ⟨?_, ?_, fun other => ?_⟩
  · unfold HookTable.addHook
    split
    · show (Entries.names (Entries.modify table.events event (· ++ [hook]))).Nodup
      rw [Entries.names_modify]
      exact h.distinct
    next habsent =>
      have hnone : Entries.get? table.events event = none := Option.not_isSome_iff_eq_none.mp habsent
      show (Entries.names (Entries.append table.events event [hook])).Nodup
      rw [Entries.names_append, ← List.concat_eq_append]
      exact h.distinct.concat (Entries.get?_eq_none_iff.mp hnone)
  · -- an entry that is kept got a hook, or had some before
    unfold HookTable.addHook
    rintro ⟨other, hooks⟩ hmem
    split at hmem
    · rcases Entries.mem_modify (f := (· ++ [hook])) hmem with hold | ⟨before, -, rfl⟩
      · exact h.filled _ hold
      · exact List.append_ne_nil_of_right_ne_nil _ (List.cons_ne_nil _ _)
    · rcases List.mem_append.mp hmem with hold | hnew
      · exact h.filled _ hold
      · rw [List.mem_singleton.mp hnew]
        exact List.cons_ne_nil _ _
  · rw [hooks_addHook, h.hooks_eq, hooksOf, hooksOf, List.filter_append, List.map_append]
    by_cases heq : event = other
    · simp [heq]
    · simp [heq, Ne.symm heq]

end Holds

/-! ## Removal -/

theorem survives_iff (pattern : P) (r : Registration F P) :
    survives pattern r.hook = true ↔ ¬ r.IsRemovedBy pattern := by
  unfold survives Registration.IsRemovedBy
  simp [or_iff_not_imp_left]

theorem names_removeMatching (table : HookTable F P) (pattern : P) :
    (Entries.names (table.removeMatching pattern).events).Sublist (Entries.names table.events) := by
  have hnames : Entries.names (table.events.map fun entry =>
      (entry.1, entry.2.filter (survives pattern))) = Entries.names table.events :=
    Entries.names_map fun _ => rfl
  rw [← hnames]
  exact List.filter_sublist.map _

/-- An event has an entry after a removal if it had one before and is left with hooks. -/
theorem mem_removeMatching {pattern : P} {event : String} {hooks : List (Hook F P)} :
    (event, hooks) ∈ (table.removeMatching pattern).events ↔
      hooks ≠ [] ∧ ∃ before, (event, before) ∈ table.events ∧
        before.filter (survives pattern) = hooks := by
  simp [removeMatching, and_comm]

theorem hooks_removeMatching (hdistinct : (Entries.names table.events).Nodup) (pattern : P)
    (event : String) : (table.removeMatching pattern).hooks event =
      (table.hooks event).filter (survives pattern) := by
  have hdistinct' := hdistinct.sublist (names_removeMatching table pattern)
  by_cases hevent : event ∈ Entries.names table.events
  · obtain ⟨⟨_, before⟩, hbefore, rfl⟩ := List.mem_map.mp hevent
    rw [hooks_of_mem hdistinct hbefore]
    by_cases hnone : before.filter (survives pattern) = []
    · -- the event lost all its hooks, and its entry with them
      rw [hnone]
      refine hooks_of_notMem fun hmem => ?_
      obtain ⟨⟨_, after⟩, hafter, rfl⟩ := List.mem_map.mp hmem
      obtain ⟨hfilled, other, hother, rfl⟩ := mem_removeMatching.mp hafter
      rw [Entries.eq_of_mem hdistinct hother hbefore] at hfilled
      exact hfilled hnone
    · exact hooks_of_mem hdistinct' (mem_removeMatching.mpr ⟨hnone, before, hbefore, rfl⟩)
  · have hevent' := fun hmem => hevent ((names_removeMatching table pattern).subset hmem)
    rw [hooks_of_notMem hevent, hooks_of_notMem hevent']
    rfl

namespace Holds

theorem removeMatching (h : table.Holds l) (pattern : P) :
    (table.removeMatching pattern).Holds (l.filter fun r => ¬ r.IsRemovedBy pattern) := by
  refine ⟨h.distinct.sublist (names_removeMatching table pattern), ?_, fun event => ?_⟩
  · rintro ⟨event, hooks⟩ hmem
    exact (mem_removeMatching.mp hmem).1
  · rw [hooks_removeMatching h.distinct, h.hooks_eq, hooksOf, hooksOf, List.filter_map,
      List.filter_filter, List.filter_filter]
    refine congrArg _ (List.filter_congr fun r _ => ?_)
    have hsurvives := survives_iff pattern r
    by_cases hr : r.IsRemovedBy pattern <;> simp_all

/-- As many hooks are removed as there are registrations that the pattern removes. -/
theorem size_sub_size (h : table.Holds l) (pattern : P) :
    table.size - (table.removeMatching pattern).size = l.countP (·.IsRemovedBy pattern) := by
  have hcount := List.length_eq_countP_add_countP (fun r => decide (r.IsRemovedBy pattern)) (l := l)
  rw [h.size_eq, (h.removeMatching pattern).size_eq, ← List.countP_eq_length_filter]
  simp only [decide_not, decide_eq_true_eq] at hcount ⊢
  omega

/-- **One call** — what a table holds after a call. -/
theorem after (h : table.Holds l) (call : HookCall F) :
    (table.after call).Holds (Registration.after l call) := by
  cases call with
  | add event id filter callback =>
    cases hfilter : FilterKind.compile? (P := P) filter with
    | none =>
      simp only [HookTable.after, Registration.after, add_of_none hfilter, hfilter]
      exact h
    | some pattern =>
      simp only [HookTable.after, Registration.after, add_of_some hfilter, hfilter]
      exact h.addHook event _
  | remove idPattern =>
    cases hpattern : FilterKind.compile? (P := P) idPattern with
    | none =>
      simp only [HookTable.after, Registration.after, remove_of_none hpattern, hpattern]
      exact h
    | some pattern =>
      simp only [HookTable.after, Registration.after, remove_of_some hpattern, hpattern]
      exact h.removeMatching pattern

theorem after_calls (h : table.Holds l) (calls : List (HookCall F)) :
    (calls.foldl HookTable.after table).Holds (calls.foldl Registration.after l) := by
  induction calls generalizing table l with
  | nil => exact h
  | cons call calls ih => exact ih (h.after call)

end Holds

/-! ## Ids -/

theorem nodup_eraseDups (names : List String) : names.eraseDups.Nodup := by
  match names with
  | [] => exact .nil
  | name :: rest =>
    rw [List.eraseDups_cons, List.nodup_cons]
    refine ⟨fun hmem => ?_, nodup_eraseDups _⟩
    simpa using (List.mem_filter.mp (List.mem_eraseDups.mp hmem)).2
termination_by names.length
decreasing_by exact Nat.lt_succ_of_le (List.length_filter_le _ _)

omit [FilterKind P] in
theorem pairwise_ids (table : HookTable F P) : table.ids.Pairwise (· < ·) := by
  have hsorted : table.ids.Pairwise fun a b => decide (a ≤ b) = true :=
    List.pairwise_mergeSort (by simpa using fun _ _ _ => le_trans) (by simpa using le_total) _
  have hnodup : table.ids.Nodup := (List.mergeSort_perm _ _).nodup_iff.mpr (nodup_eraseDups _)
  exact (hsorted.and hnodup).imp fun h => lt_of_le_of_ne (of_decide_eq_true h.1) h.2

omit [FilterKind P] in
theorem Holds.mem_ids (h : table.Holds l) (id : String) :
    id ∈ table.ids ↔ id ≠ "" ∧ ∃ r ∈ l, r.hook.id = id := by
  have hids : (table.events.flatMap fun entry => entry.2.map (·.id)) =
      (table.events.flatMap (·.2)).map (·.id) := List.map_flatMap.symm
  rw [ids, hids]
  simp only [List.mem_mergeSort, List.mem_eraseDups, List.mem_filter, List.mem_map,
    h.perm.mem_iff]
  simp [and_comm]

/-! ## Histories -/

/-- **A table holds its registrations** — after every sequence of calls, whichever of them fail and
whatever filters mean, with `l` for what is left of the registrations, in the order in which they
were made: an event has its own of `l`; an event with a parameter runs those that accept it; to add
and to remove fails for a text that is no filter, and a removal counts the registrations that it
removes, which have an id; the ids are those of `l`, in order and each once; and the table is empty
if `l` is. -/
theorem holds_registrations (calls : List (HookCall F)) :
    let table : HookTable F P := calls.foldl after {}
    let l : List (Registration F P) := calls.foldl Registration.after []
    (∀ event, table.hooks event = (l.filter (·.event = event)).map (·.hook)) ∧
      (∀ event param, table.matching event param =
        (l.filter fun r => r.event = event ∧ FilterKind.isMatch r.hook.filter param).map
          (·.hook.callback)) ∧
      (∀ event id filter callback, table.add event id filter callback =
        match FilterKind.compile? (P := P) filter with
        | some _ => .ok (table.after (.add event id filter callback))
        | none => .error (.invalidPattern filter)) ∧
      (∀ idPattern, table.remove idPattern =
        match FilterKind.compile? (P := P) idPattern with
        | some pattern => .ok (l.countP (·.IsRemovedBy pattern), table.after (.remove idPattern))
        | none => .error (.invalidPattern idPattern)) ∧
      (table.ids.Pairwise (· < ·) ∧ ∀ id, id ∈ table.ids ↔ id ≠ "" ∧ ∃ r ∈ l, r.hook.id = id) ∧
      (table.isEmpty = true ↔ l = []) := by
  intro table l
  have hholds : table.Holds l := Holds.empty.after_calls calls
  refine ⟨hholds.hooks_eq, fun event param => ?_, fun event id filter callback => ?_,
    fun idPattern => ?_, ⟨table.pairwise_ids, hholds.mem_ids⟩, hholds.isEmpty_iff⟩
  · rw [matching, hholds.hooks_eq, hooksOf, List.filter_map, List.filter_filter, List.map_map]
    refine congrArg _ (List.filter_congr fun r _ => ?_)
    simp [Hook.accepts, Bool.and_comm]
  · cases hfilter : FilterKind.compile? (P := P) filter with
    | none => exact add_of_none hfilter
    | some pattern => simp only [HookTable.after, add_of_some hfilter]
  · cases hpattern : FilterKind.compile? (P := P) idPattern with
    | none => exact remove_of_none hpattern
    | some pattern =>
      simp only [HookTable.after, remove_of_some hpattern, hholds.size_sub_size]

end HookTable

end ModalEdit
