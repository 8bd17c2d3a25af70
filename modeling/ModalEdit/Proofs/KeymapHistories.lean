import Mathlib.Data.List.Induction
import Mathlib.Data.List.Nodup
import Mathlib.Data.List.TakeDrop
import Mathlib.Data.List.TakeWhile
import ModalEdit.Keymap

/-!
# Key maps and their histories

What a key stands for in a mode is told from the calls that were made and their answers, without a
table: by the last successful call that gave it keys, if it was not unbound after that
(`LastGiven`). So is the place of its binding: it was bound by one call of the history and has been
since (`BoundSince`). A table holds exactly what was given last, each mode and key once, in the
order in which they were bound (`FollowsHistory`, `tables_follow_calls`).

The table cuts its bindings at the first one of a key. `Effect` says what a call does, with a
binding of the key between those before it and those after it. That there is no other one is what
the calls keep, and what makes the first one the one to be replaced or removed.
-/

namespace ModalEdit

/-- The mode and the key that a binding is for. -/
def Binding.pair (b : Binding) : KeymapMode × Key := (b.mode, b.key)

@[simp]
theorem Binding.pair_mk (mode : KeymapMode) (key : Key) (keys : List Key) :
    (Binding.mk mode key keys).pair = (mode, key) := rfl

namespace KeymapTable

/-! ## Calls -/

/-- A call that changes a table. -/
inductive Call where
  | map (mode : KeymapMode) (key : Key) (keys : List Key)
  | mapNew (mode : KeymapMode) (key : Key) (keys : List Key)
  | unmap (mode : KeymapMode) (key : Key)

/-- The mode and the key that a call is about. -/
def Call.pair : Call → KeymapMode × Key
  | .map mode key _ => (mode, key)
  | .mapNew mode key _ => (mode, key)
  | .unmap mode key => (mode, key)

/-- What a call gives back. -/
inductive Answer where
  /-- What the key stood for, if it was bound. -/
  | displaced (old : Option (List Key))
  | done
  | refused (e : RegistryError)

/-- Carries a call out. -/
def perform (table : KeymapTable) : Call → Answer × KeymapTable
  | .map mode key keys =>
    (.displaced (table.exchange mode key keys).1, table.map mode key keys)
  | .mapNew mode key keys =>
    match table.mapNew mode key keys with
    | .ok next => (.done, next)
    | .error e => (.refused e, table)
  | .unmap mode key => (.displaced (table.take mode key).1, table.unmap mode key)

/-- The calls that were made, each with its answer. -/
abbrev History := List (Call × Answer)

/-- Carries calls out one after the other. -/
def run (table : KeymapTable) : List Call → History × KeymapTable
  | [] => ([], table)
  | call :: calls =>
    let (answer, next) := table.perform call
    let (h, last) := next.run calls
    ((call, answer) :: h, last)

/-! ## Histories -/

/-- **`Gives event pair keys`** — the call succeeds, and the pair stands for the keys from it on. -/
inductive Gives : Call × Answer → KeymapMode × Key → List Key → Prop where
  | map {mode key keys answer} : Gives (.map mode key keys, answer) (mode, key) keys
  | mapNew {mode key keys} : Gives (.mapNew mode key keys, .done) (mode, key) keys

/-- **`Unbinds event pair`** — the pair stands for nothing from the call on. -/
def Unbinds (event : Call × Answer) (pair : KeymapMode × Key) : Prop :=
  event.1 = .unmap pair.1 pair.2

/-- **`LastGiven h pair keys`** — a call gave the pair the keys, and none that follows it gave the
pair any or unbound it. -/
def LastGiven (h : History) (pair : KeymapMode × Key) (keys : List Key) : Prop :=
  ∃ before event after, h = before ++ event :: after ∧ Gives event pair keys ∧
    ∀ later ∈ after, (∀ other, ¬ Gives later pair other) ∧ ¬ Unbinds later pair

/-- **`BoundSince h pair time`** — the call with that number bound the pair, which was not bound
before it, and none that follows it unbound the pair. -/
def BoundSince (h : History) (pair : KeymapMode × Key) (time : Nat) : Prop :=
  ∃ before event after, h = before ++ event :: after ∧
    (before.length = time ∧ (∃ keys, Gives event pair keys) ∧
      ∀ keys, ¬ LastGiven before pair keys) ∧
    ∀ later ∈ after, ¬ Unbinds later pair

variable {h : History} {event : Call × Answer} {pair : KeymapMode × Key} {keys : List Key}
  {time : Nat}

/-- A history that goes on is cut at its last call, or where it could be cut before. -/
theorem exists_cut_concat {P : History → Call × Answer → Prop} {Q : Call × Answer → Prop} :
    (∃ before e after, h ++ [event] = before ++ e :: after ∧ P before e ∧
        ∀ later ∈ after, Q later) ↔
      P h event ∨
        (∃ before e after, h = before ++ e :: after ∧ P before e ∧ ∀ later ∈ after, Q later) ∧
          Q event := by
  constructor
  · rintro ⟨before, e, after, hcut, hP, hQ⟩
    rcases List.eq_nil_or_concat' after with rfl | ⟨after, last, rfl⟩
    · obtain ⟨rfl, hlast⟩ := List.append_inj' hcut rfl
      obtain rfl := List.singleton_inj.mp hlast
      exact .inl hP
    · rw [← List.cons_append, ← List.append_assoc] at hcut
      obtain ⟨rfl, hlast⟩ := List.append_inj' hcut rfl
      obtain rfl := List.singleton_inj.mp hlast
      have hlast := hQ event (List.mem_append_right after List.mem_cons_self)
      exact .inr ⟨⟨before, e, after, rfl, hP, fun later hlater =>
        hQ later (List.mem_append_left _ hlater)⟩, hlast⟩
  · rintro (hP | ⟨⟨before, e, after, rfl, hP, hQ⟩, hlast⟩)
    · exact ⟨h, event, [], rfl, hP, List.forall_mem_nil Q⟩
    · have hcut : before ++ e :: after ++ [event] = before ++ e :: (after ++ [event]) :=
        List.append_assoc before (e :: after) [event]
      refine ⟨before, e, after ++ [event], hcut, hP, fun later hlater => ?_⟩
      rcases List.mem_append.mp hlater with hlater | hlater
      · exact hQ later hlater
      · rwa [List.mem_singleton.mp hlater]

theorem lastGiven_concat : LastGiven (h ++ [event]) pair keys ↔ Gives event pair keys ∨
    LastGiven h pair keys ∧ (∀ other, ¬ Gives event pair other) ∧ ¬ Unbinds event pair :=
  exists_cut_concat (P := fun _ e => Gives e pair keys)

theorem boundSince_concat : BoundSince (h ++ [event]) pair time ↔
    (h.length = time ∧ (∃ keys, Gives event pair keys) ∧ ∀ keys, ¬ LastGiven h pair keys) ∨
      BoundSince h pair time ∧ ¬ Unbinds event pair :=
  exists_cut_concat

theorem BoundSince.lt_length (hbound : BoundSince h pair time) : time < h.length := by
  obtain ⟨before, e, after, rfl, ⟨rfl, -⟩, -⟩ := hbound
  simp

/-- A pair stands for keys exactly if it has been bound since some call. -/
theorem exists_lastGiven_iff :
    (∃ keys, LastGiven h pair keys) ↔ ∃ time, BoundSince h pair time := by
  induction h using List.reverseRecOn with
  | nil => simp [LastGiven, BoundSince]
  | append_singleton h event ih =>
    simp only [lastGiven_concat, boundSince_concat, exists_or, exists_and_right]
    by_cases hbound : ∃ keys, LastGiven h pair keys
    · have hsince := ih.mp hbound
      by_cases hgives : ∃ keys, Gives event pair keys
      · have hkeeps : ¬ Unbinds event pair := by
          intro hunbinds
          obtain ⟨keys, hgives⟩ := hgives
          cases hgives <;> cases hunbinds
        simp [hgives, hsince, hkeeps]
      · have hnone := not_exists.mp hgives
        simp [hbound, hsince, hnone]
    · have hsince := mt ih.mpr hbound
      have hnone := not_exists.mp hbound
      simp [hsince, hnone]

/-! ## One call -/

/-- The pairs that are bound, in the order of the bindings. -/
def pairs (bindings : List Binding) : List (KeymapMode × Key) := bindings.map (·.pair)

/-- **`Effect bindings call answer bindings'`** — the call turns the one list of bindings into the
other. -/
inductive Effect : List Binding → Call → Answer → List Binding → Prop where
  | replaced {before mode key old after keys} :
    Effect (before ++ ⟨mode, key, old⟩ :: after) (.map mode key keys) (.displaced (some old))
      (before ++ ⟨mode, key, keys⟩ :: after)
  | added {bindings mode key keys} (hfree : (mode, key) ∉ pairs bindings) :
    Effect bindings (.map mode key keys) (.displaced none) (bindings ++ [⟨mode, key, keys⟩])
  | taken {bindings mode key keys} (hbound : (mode, key) ∈ pairs bindings) :
    Effect bindings (.mapNew mode key keys)
      (.refused (.duplicateName "mapping" (mode.name ++ " " ++ key.text))) bindings
  | addedNew {bindings mode key keys} (hfree : (mode, key) ∉ pairs bindings) :
    Effect bindings (.mapNew mode key keys) .done (bindings ++ [⟨mode, key, keys⟩])
  | removed {before mode key old after} :
    Effect (before ++ ⟨mode, key, old⟩ :: after) (.unmap mode key) (.displaced (some old))
      (before ++ after)
  | notRemoved {bindings mode key} (hfree : (mode, key) ∉ pairs bindings) :
    Effect bindings (.unmap mode key) (.displaced none) bindings

variable {table : KeymapTable} {mode : KeymapMode} {key : Key} {call : Call} {answer : Answer}
  {bindings bindings' : List Binding} {b : Binding}

theorem isFor_iff : isFor mode key b = true ↔ b.pair = (mode, key) := by
  simp [isFor, Binding.pair]

theorem cut_cases (table : KeymapTable) (mode : KeymapMode) (key : Key) :
    (∃ before old after, table.cut mode key = (before, ⟨mode, key, old⟩ :: after) ∧
        table.bindings = before ++ ⟨mode, key, old⟩ :: after) ∨
      table.cut mode key = (table.bindings, []) ∧ (mode, key) ∉ pairs table.bindings := by
  have hparts : table.cut mode key = (table.bindings.takeWhile fun b => !isFor mode key b,
      table.bindings.dropWhile fun b => !isFor mode key b) := List.span_eq_takeWhile_dropWhile ..
  have hjoined := List.takeWhile_append_dropWhile (p := fun b => !isFor mode key b)
    (l := table.bindings)
  have hfirst := List.head?_dropWhile_not (fun b => !isFor mode key b) table.bindings
  rw [hparts]
  cases hrest : table.bindings.dropWhile fun b => !isFor mode key b with
  | nil =>
    rw [hrest, List.append_nil] at hjoined
    refine .inr ⟨by rw [hjoined], fun hmem => ?_⟩
    obtain ⟨b, hb, hpair⟩ := List.mem_map.mp hmem
    have hmiss := List.dropWhile_eq_nil_iff.mp hrest b hb
    simp [isFor_iff.mpr hpair] at hmiss
  | cons b after =>
    rw [hrest] at hjoined hfirst
    have hb : isFor mode key b = true := by simpa using hfirst
    obtain ⟨_, _, old⟩ := b
    obtain ⟨rfl, rfl⟩ := Prod.mk.inj (isFor_iff.mp hb)
    exact .inl ⟨_, old, after, rfl, hjoined.symm⟩

theorem isMapped_iff : table.isMapped mode key = true ↔ (mode, key) ∈ pairs table.bindings := by
  simp [isMapped, get?, pairs, isFor_iff]

/-- **What a call does** — whatever bindings there are. -/
theorem effect_perform (table : KeymapTable) (call : Call) :
    Effect table.bindings call (table.perform call).1 (table.perform call).2.bindings := by
  cases call with
  | map mode key keys =>
    obtain ⟨before, old, after, hcut, hbindings⟩ | ⟨hcut, hfree⟩ := table.cut_cases mode key
    · simp only [perform, map, exchange, hcut, hbindings]
      exact .replaced
    · simp only [perform, map, exchange, hcut]
      exact .added hfree
  | mapNew mode key keys =>
    by_cases hbound : (mode, key) ∈ pairs table.bindings
    · simp only [perform, mapNew, isMapped_iff.mpr hbound, if_true]
      exact .taken hbound
    · simp only [perform, mapNew, isMapped_iff, hbound, if_false]
      exact .addedNew hbound
  | unmap mode key =>
    obtain ⟨before, old, after, hcut, hbindings⟩ | ⟨hcut, hfree⟩ := table.cut_cases mode key
    · simp only [perform, unmap, take, hcut, hbindings]
      exact .removed
    · simp only [perform, unmap, take, hcut]
      exact .notRemoved hfree

/-- What a call is not about stays, in its order. -/
theorem Effect.others_eq (heffect : Effect bindings call answer bindings') :
    bindings'.filter (fun b => b.pair ≠ call.pair) =
      bindings.filter (fun b => b.pair ≠ call.pair) := by
  cases heffect <;> simp [Binding.pair, Call.pair]

/-! ## One call on distinct pairs -/

theorem eq_binding_iff : b = ⟨mode, key, keys⟩ ↔ b.pair = (mode, key) ∧ b.keys = keys := by
  obtain ⟨m, k, ks⟩ := b
  simp [Binding.pair, and_assoc]

theorem gives_map_iff {other : List Key} : Gives (.map mode key keys, answer) pair other ↔
    pair = (mode, key) ∧ other = keys := by
  constructor
  · rintro ⟨⟩
    exact ⟨rfl, rfl⟩
  · rintro ⟨rfl, rfl⟩
    exact .map

theorem gives_mapNew_iff {other : List Key} : Gives (.mapNew mode key keys, answer) pair other ↔
    answer = .done ∧ pair = (mode, key) ∧ other = keys := by
  constructor
  · rintro ⟨⟩
    exact ⟨rfl, rfl, rfl⟩
  · rintro ⟨rfl, rfl, rfl⟩
    exact .mapNew

theorem not_gives_unmap : ¬ Gives (.unmap mode key, answer) pair keys := nofun

theorem unbinds_unmap_iff : Unbinds (.unmap mode key, answer) pair ↔ pair = (mode, key) := by
  obtain ⟨m, k⟩ := pair
  simp [Unbinds, eq_comm]

section Among

variable {before after : List Binding}

theorem pairs_append_cons :
    pairs (before ++ b :: after) = pairs before ++ b.pair :: pairs after := by
  simp [pairs]

/-- Where pairs are distinct, the bindings before and after one are those of the other pairs. -/
theorem mem_others_iff (hdistinct : (pairs (before ++ b :: after)).Nodup) {c : Binding} :
    c ∈ before ++ after ↔ c ∈ before ++ b :: after ∧ c.pair ≠ b.pair := by
  rw [pairs_append_cons, List.nodup_middle, List.nodup_cons] at hdistinct
  constructor
  · intro hc
    refine ⟨?_, fun hpair => hdistinct.1 ?_⟩
    · simpa [or_left_comm] using Or.inr (a := c = b) (List.mem_append.mp hc)
    · rw [← hpair, pairs, pairs, ← List.map_append]
      exact List.mem_map_of_mem hc
  · rintro ⟨hc, hne⟩
    rcases List.mem_append.mp hc with hbefore | hrest
    · exact List.mem_append_left _ hbefore
    · rcases List.mem_cons.mp hrest with rfl | hafter
      · exact absurd rfl hne
      · exact List.mem_append_right _ hafter

end Among

/-- A pair that is bound anew is not that of an old binding. -/
theorem ne_of_free (hfree : pair ∉ pairs bindings) (hb : b ∈ bindings) : b.pair ≠ pair := by
  rintro rfl
  exact hfree (List.mem_map_of_mem hb)

theorem mem_added_iff (hfree : (mode, key) ∉ pairs bindings) :
    b ∈ bindings ++ [⟨mode, key, keys⟩] ↔
      b = ⟨mode, key, keys⟩ ∨ b ∈ bindings ∧ b.pair ≠ (mode, key) := by
  rw [List.mem_append, List.mem_singleton, or_comm]
  exact or_congr_right (and_iff_left_of_imp (ne_of_free hfree)).symm

/-- A call keeps pairs distinct. -/
theorem Effect.nodup (heffect : Effect bindings call answer bindings')
    (hdistinct : (pairs bindings).Nodup) : (pairs bindings').Nodup := by
  cases heffect with
  | replaced => simpa [pairs, Binding.pair] using hdistinct
  | added hfree => simpa [pairs, Binding.pair] using hdistinct.concat hfree
  | addedNew hfree => simpa [pairs, Binding.pair] using hdistinct.concat hfree
  | removed =>
    rw [pairs_append_cons, List.nodup_middle, List.nodup_cons] at hdistinct
    simpa [pairs] using hdistinct.2
  | _ => exact hdistinct

/-- The bindings after a call: the one that it gives, and those before but the one that it gives
anew or unbinds. -/
theorem Effect.mem_iff (heffect : Effect bindings call answer bindings')
    (hdistinct : (pairs bindings).Nodup) : b ∈ bindings' ↔ Gives (call, answer) b.pair b.keys ∨
      b ∈ bindings ∧ (∀ other, ¬ Gives (call, answer) b.pair other) ∧
        ¬ Unbinds (call, answer) b.pair := by
  cases heffect with
  | @replaced before mode key old after keys =>
    have hplaced : b ∈ before ++ ⟨mode, key, keys⟩ :: after ↔
        b = ⟨mode, key, keys⟩ ∨ b ∈ before ++ after := by
      simp [or_left_comm]
    rw [hplaced, mem_others_iff hdistinct, eq_binding_iff]
    simp [gives_map_iff, Unbinds]
  | added hfree =>
    rw [mem_added_iff hfree, eq_binding_iff]
    simp [gives_map_iff, Unbinds]
  | taken hbound => simp [gives_mapNew_iff, Unbinds]
  | addedNew hfree =>
    rw [mem_added_iff hfree, eq_binding_iff]
    simp [gives_mapNew_iff, Unbinds]
  | removed =>
    rw [mem_others_iff hdistinct]
    simp [not_gives_unmap, unbinds_unmap_iff]
  | notRemoved hfree =>
    simp only [not_gives_unmap, unbinds_unmap_iff, not_false_eq_true, implies_true, true_and,
      false_or]
    exact (and_iff_left_of_imp (ne_of_free hfree)).symm

/-! ## Tables and histories -/

/-- **`Precedes h pair other`** — the pair has been bound for longer than the other one. -/
def Precedes (h : History) (pair other : KeymapMode × Key) : Prop :=
  ∀ i j, BoundSince h pair i → BoundSince h other j → i < j

/-- **`FollowsHistory bindings h`** — the bindings are what the history has left, in its order. -/
structure FollowsHistory (bindings : List Binding) (h : History) : Prop where
  distinct : (pairs bindings).Nodup
  mem_iff : ∀ b, b ∈ bindings ↔ LastGiven h b.pair b.keys
  ordered : (pairs bindings).Pairwise (Precedes h)

theorem followsHistory_nil : FollowsHistory [] [] := ⟨.nil, by simp [LastGiven], .nil⟩

namespace FollowsHistory

theorem mem_pairs_iff (hfollows : FollowsHistory bindings h) :
    pair ∈ pairs bindings ↔ ∃ keys, LastGiven h pair keys := by
  constructor
  · intro hmem
    obtain ⟨b, hb, rfl⟩ := List.mem_map.mp hmem
    exact ⟨b.keys, (hfollows.mem_iff b).mp hb⟩
  · rintro ⟨keys, hlast⟩
    exact List.mem_map_of_mem ((hfollows.mem_iff ⟨pair.1, pair.2, keys⟩).mpr hlast)

/-- One call more leaves bound pairs where they are. -/
theorem boundSince_of_concat (hfollows : FollowsHistory bindings h) (hbound : pair ∈ pairs bindings)
    (hsince : BoundSince (h ++ [event]) pair time) : BoundSince h pair time := by
  obtain ⟨-, -, hfree⟩ | ⟨hold, -⟩ := boundSince_concat.mp hsince
  · obtain ⟨keys, hlast⟩ := hfollows.mem_pairs_iff.mp hbound
    exact absurd hlast (hfree keys)
  · exact hold

theorem ordered_concat (hfollows : FollowsHistory bindings h) (event : Call × Answer) :
    (pairs bindings).Pairwise (Precedes (h ++ [event])) := by
  refine hfollows.ordered.imp_of_mem fun hpair hother hprecedes i j hi hj => ?_
  exact hprecedes i j (hfollows.boundSince_of_concat hpair hi)
    (hfollows.boundSince_of_concat hother hj)

/-- A pair that is bound anew comes after all others. -/
theorem ordered_added (hfollows : FollowsHistory bindings h) (event : Call × Answer)
    (hfree : pair ∉ pairs bindings) :
    (pairs bindings ++ [pair]).Pairwise (Precedes (h ++ [event])) := by
  refine List.pairwise_append.mpr ⟨hfollows.ordered_concat event, List.pairwise_singleton _ _, ?_⟩
  intro other hother new hnew i j hi hj
  obtain rfl := List.mem_singleton.mp hnew
  have hlt := (hfollows.boundSince_of_concat hother hi).lt_length
  obtain ⟨rfl, -⟩ | ⟨hold, -⟩ := boundSince_concat.mp hj
  · exact hlt
  · exact absurd (hfollows.mem_pairs_iff.mpr (exists_lastGiven_iff.mpr ⟨j, hold⟩)) hfree

/-- **One call** — bindings that follow the history before it follow the one with it. -/
theorem effect (hfollows : FollowsHistory bindings h)
    (heffect : Effect bindings call answer bindings') :
    FollowsHistory bindings' (h ++ [(call, answer)]) := by
  refine ⟨heffect.nodup hfollows.distinct, fun b => ?_, ?_⟩
  · rw [heffect.mem_iff hfollows.distinct, hfollows.mem_iff, lastGiven_concat]
  · have hordered := hfollows.ordered_concat (call, answer)
    cases heffect with
    | replaced => simpa [pairs] using hordered
    | added hfree => simpa [pairs] using hfollows.ordered_added _ hfree
    | taken => exact hordered
    | addedNew hfree => simpa [pairs] using hfollows.ordered_added _ hfree
    | @removed before mode key old after =>
      refine hordered.sublist ?_
      exact ((List.sublist_cons_self _ _).append_left before).map _
    | notRemoved => exact hordered

/-- **A run of calls** — by induction on the calls, each of them going on with the history. -/
theorem run {table : KeymapTable} (hfollows : FollowsHistory table.bindings h) (calls : List Call) :
    FollowsHistory (table.run calls).2.bindings (h ++ (table.run calls).1) := by
  induction calls generalizing table h with
  | nil => simpa [KeymapTable.run] using hfollows
  | cons call calls ih =>
    have hrest := ih (hfollows.effect (table.effect_perform call))
    rwa [List.append_assoc] at hrest

end FollowsHistory

/-! ## What is asked of a table -/

theorem get?_eq_some_iff (hdistinct : (pairs table.bindings).Nodup) :
    table.get? mode key = some keys ↔ ⟨mode, key, keys⟩ ∈ table.bindings := by
  rw [get?, Option.map_eq_some_iff]
  constructor
  · rintro ⟨b, hfind, rfl⟩
    obtain ⟨rfl, rfl⟩ := Prod.mk.inj (isFor_iff.mp (List.find?_some hfind))
    exact List.mem_of_find?_eq_some hfind
  · intro hmem
    cases hfind : table.bindings.find? (isFor mode key) with
    | none =>
      have hmiss := List.find?_eq_none.mp hfind _ hmem
      exact absurd (isFor_iff.mpr rfl) hmiss
    | some b =>
      -- what is found first is the binding, since no other one has its pair
      have hpair := isFor_iff.mp (List.find?_some hfind)
      have hsame := List.inj_on_of_nodup_map hdistinct (List.mem_of_find?_eq_some hfind) hmem hpair
      exact ⟨b, rfl, congrArg Binding.keys hsame⟩

theorem mem_mappings_iff :
    (key, keys) ∈ table.mappings mode ↔ ⟨mode, key, keys⟩ ∈ table.bindings := by
  unfold mappings
  rw [List.mem_map]
  constructor
  · rintro ⟨b, hb, heq⟩
    obtain ⟨hmem, hmode⟩ := List.mem_filter.mp hb
    obtain ⟨rfl, rfl⟩ := Prod.mk.inj heq
    rwa [← of_decide_eq_true hmode]
  · intro hmem
    exact ⟨_, List.mem_filter.mpr ⟨hmem, decide_eq_true rfl⟩, rfl⟩

/-- The mappings of a mode have the order of the bindings. -/
theorem pairwise_mappings {R : KeymapMode × Key → KeymapMode × Key → Prop}
    (hordered : (pairs table.bindings).Pairwise R) (mode : KeymapMode) :
    (table.mappings mode).Pairwise fun entry later => R (mode, entry.1) (mode, later.1) := by
  refine List.pairwise_map.mpr ?_
  have hkept := (List.pairwise_map.mp hordered).filter (·.mode = mode)
  refine hkept.imp_of_mem fun {b c} hb hc hR => ?_
  have hmode := of_decide_eq_true (List.mem_filter.mp hb).2
  have hmode' := of_decide_eq_true (List.mem_filter.mp hc).2
  rwa [Binding.pair, Binding.pair, hmode, hmode'] at hR

theorem get?_eq_none_iff :
    table.get? mode key = none ↔ (mode, key) ∉ pairs table.bindings := by
  rw [← isMapped_iff, isMapped, Option.not_isSome_iff_eq_none]

/-- The keys that a call displaces are those that its pair stood for. -/
theorem displaced_perform (hdistinct : (pairs table.bindings).Nodup) (call : Call)
    {old : Option (List Key)} (hanswer : (table.perform call).1 = .displaced old) :
    table.get? call.pair.1 call.pair.2 = old := by
  have heffect := table.effect_perform call
  rw [hanswer] at heffect
  obtain ⟨bindings⟩ := table
  generalize (perform ⟨bindings⟩ call).2.bindings = bindings' at heffect
  cases heffect with
  | replaced => exact (get?_eq_some_iff hdistinct).mpr (by simp [Call.pair])
  | added hfree => exact get?_eq_none_iff.mpr hfree
  | removed => exact (get?_eq_some_iff hdistinct).mpr (by simp [Call.pair])
  | notRemoved hfree => exact get?_eq_none_iff.mpr hfree

theorem perform_map (hdistinct : (pairs table.bindings).Nodup) :
    (table.perform (.map mode key keys)).1 = .displaced (table.get? mode key) :=
  congrArg Answer.displaced (displaced_perform hdistinct (.map mode key keys) rfl).symm

theorem perform_unmap (hdistinct : (pairs table.bindings).Nodup) :
    (table.perform (.unmap mode key)).1 = .displaced (table.get? mode key) :=
  congrArg Answer.displaced (displaced_perform hdistinct (.unmap mode key) rfl).symm

/-- To bind a key anew is to bind it, unless it is bound. -/
theorem perform_mapNew (table : KeymapTable) (mode : KeymapMode) (key : Key) (keys : List Key) :
    table.perform (.mapNew mode key keys) =
      match table.get? mode key with
      | some _ => (.refused (.duplicateName "mapping" (mode.name ++ " " ++ key.text)), table)
      | none => (.done, (table.perform (.map mode key keys)).2) := by
  cases hget : table.get? mode key with
  | some old =>
    have hmapped : table.isMapped mode key = true := by rw [isMapped, hget, Option.isSome_some]
    simp only [perform, mapNew, hmapped, if_true]
  | none =>
    have hmapped : table.isMapped mode key = false := by rw [isMapped, hget, Option.isSome_none]
    obtain ⟨before, old, after, -, hbindings⟩ | ⟨hcut, -⟩ := table.cut_cases mode key
    · exact absurd (by simp [pairs, hbindings]) (get?_eq_none_iff.mp hget)
    · simp only [perform, mapNew, map, exchange, hmapped, hcut, Bool.false_eq_true, if_false]

namespace FollowsHistory

theorem get?_eq_some_iff (hfollows : FollowsHistory table.bindings h) :
    table.get? mode key = some keys ↔ LastGiven h (mode, key) keys :=
  (KeymapTable.get?_eq_some_iff hfollows.distinct).trans (hfollows.mem_iff ⟨mode, key, keys⟩)

theorem perform (hfollows : FollowsHistory table.bindings h) (call : Call) :
    FollowsHistory (table.perform call).2.bindings (h ++ [(call, (table.perform call).1)]) :=
  hfollows.effect (table.effect_perform call)

/-- Other pairs stand for what they stood for. -/
theorem get?_perform_of_ne (hfollows : FollowsHistory table.bindings h)
    (hne : (mode, key) ≠ call.pair) :
    (table.perform call).2.get? mode key = table.get? mode key := by
  refine Option.ext fun keys => ?_
  have hkept : ⟨mode, key, keys⟩ ∈ (table.perform call).2.bindings ↔
      ⟨mode, key, keys⟩ ∈ table.bindings := by
    have hmem := congrArg (⟨mode, key, keys⟩ ∈ ·) (table.effect_perform call).others_eq
    simpa [hne] using hmem
  rw [KeymapTable.get?_eq_some_iff hfollows.distinct,
    KeymapTable.get?_eq_some_iff (hfollows.perform call).distinct, hkept]

end FollowsHistory

/-- **Tables follow the history of their calls** — after every sequence of calls, with `h` for these
calls and their answers: no pair is bound twice; a pair stands for what it was given last, if it was
not unbound after that, and for nothing else; and the mappings of a mode are those, in the order in
which their pairs were bound that have been bound since. Whatever call comes next: to bind a key and
to unbind it give back what it stood for until then; to bind a key anew is refused, and leaves the
table as it is, if the key is bound, and else binds it; and the bindings of other pairs stay as they
are. -/
theorem tables_follow_calls (calls : List Call) :
    let h := (run {} calls).1
    let table := (run {} calls).2
    (table.bindings.map (·.pair)).Nodup ∧
      (∀ mode key keys, table.get? mode key = some keys ↔ LastGiven h (mode, key) keys) ∧
      (∀ mode,
        (∀ key keys, (key, keys) ∈ table.mappings mode ↔ LastGiven h (mode, key) keys) ∧
        (∀ entry ∈ table.mappings mode, ∃ time, BoundSince h (mode, entry.1) time) ∧
        (table.mappings mode).Pairwise fun entry later =>
          Precedes h (mode, entry.1) (mode, later.1)) ∧
      (∀ mode key keys,
        (table.perform (.map mode key keys)).1 = .displaced (table.get? mode key) ∧
        (table.perform (.map mode key keys)).2.get? mode key = some keys) ∧
      (∀ mode key,
        (table.perform (.unmap mode key)).1 = .displaced (table.get? mode key) ∧
        (table.perform (.unmap mode key)).2.get? mode key = none) ∧
      (∀ mode key keys, table.perform (.mapNew mode key keys) =
        match table.get? mode key with
        | some _ => (.refused (.duplicateName "mapping" (mode.name ++ " " ++ key.text)), table)
        | none => (.done, (table.perform (.map mode key keys)).2)) ∧
      ∀ call,
        (table.perform call).2.bindings.filter (fun b => b.pair ≠ call.pair) =
          table.bindings.filter (fun b => b.pair ≠ call.pair) ∧
        ∀ mode key, (mode, key) ≠ call.pair →
          (table.perform call).2.get? mode key = table.get? mode key := by
  intro h table
  have hempty : FollowsHistory ({} : KeymapTable).bindings [] := followsHistory_nil
  have hfollows : FollowsHistory table.bindings h := hempty.run calls
  refine ⟨hfollows.distinct, fun _ _ _ => hfollows.get?_eq_some_iff, fun mode => ⟨?_, ?_, ?_⟩,
    fun mode key keys => ⟨perform_map hfollows.distinct, ?_⟩,
    fun mode key => ⟨perform_unmap hfollows.distinct, ?_⟩, table.perform_mapNew,
    fun call => ⟨(table.effect_perform call).others_eq, fun _ _ => hfollows.get?_perform_of_ne⟩⟩
  · intro key keys
    exact mem_mappings_iff.trans (hfollows.mem_iff ⟨mode, key, keys⟩)
  · intro entry hentry
    have hlast := (hfollows.mem_iff _).mp (mem_mappings_iff.mp hentry)
    exact exists_lastGiven_iff.mp ⟨_, hlast⟩
  · exact pairwise_mappings hfollows.ordered mode
  · exact (hfollows.perform _).get?_eq_some_iff.mpr (lastGiven_concat.mpr (.inl .map))
  · refine Option.eq_none_iff_forall_ne_some.mpr fun keys hsome => ?_
    have hlast := (hfollows.perform (.unmap mode key)).get?_eq_some_iff.mp hsome
    obtain hgives | ⟨-, -, hkept⟩ := lastGiven_concat.mp hlast
    · exact not_gives_unmap hgives
    · exact hkept rfl

/-- A key that is bound once more keeps its place, and one that was unbound comes last. -/
theorem tables_follow_calls_rebound :
    let a := Key.ofChar 'a'
    let b := Key.ofChar 'b'
    let calls : List Call := [.map .normal a [], .mapNew .normal b [a], .map .normal a [b],
      .mapNew .insert a [], .mapNew .normal b [], .unmap .normal a, .map .normal a [a, b]]
    let h := (run {} calls).1
    let table := (run {} calls).2
    table.mappings .normal = [(b, [a]), (a, [a, b])] ∧ LastGiven h (.normal, b) [a] ∧
      Precedes h (.normal, b) (.normal, a) ∧
      (table.perform (.unmap .normal a)).2.get? .insert a = some [] := by
  intro a b calls h table
  have hmappings : table.mappings .normal = [(b, [a]), (a, [a, b])] := by decide
  obtain ⟨-, hget, hlisted, -, -, -, hothers⟩ := tables_follow_calls calls
  obtain ⟨-, -, hordered⟩ := hlisted .normal
  refine ⟨hmappings, (hget _ _ _).mp (by decide), ?_, ?_⟩
  · rw [hmappings] at hordered
    exact List.rel_of_pairwise_cons hordered List.mem_cons_self
  · rw [(hothers (.unmap .normal a)).2 .insert a (by decide)]
    decide

end KeymapTable

end ModalEdit
