import ModalEdit.Proofs.NamedEntries

/-!
# Tables under calls

A table of named entries, told from the list that it stands for. `Effect` says what each call does
to a list of names and values and what it answers, `Follows` what a sequence of calls does. Nothing
in them looks a name up: where the name of a call is in the list, the list is written with that
entry between those before and those after it, so that the place of every entry can be read off.
The table does the same (`run_eq_iff_follows`), and no name is twice in it.

Every call has an effect on every list (`exists_effect`), and on a list with distinct names the
table has that effect (`perform_eq`), so it has no other.
-/

namespace ModalEdit.NameMap

variable {V : Type}

/-- A call on a table. -/
inductive Call (V : Type) where
  | insert (name : String) (v : V)
  | replace (name : String) (v : V)
  | rename (source target : String)
  | remove (name : String)
  | retain (keep : String → V → Bool)
  | get (name : String)
  | lookup (name : String)
  /-- Looks a value up and writes to it. -/
  | update (name : String) (f : V → V)
  | complete (query : String) (cursor : Nat)

/-- What a call gives back. -/
inductive Answer (V : Type) where
  | done
  | value (v : V)
  /-- The value that there is or was, if there is one. -/
  | found (old : Option V)
  | count (n : Nat)
  | completions (c : Completions)
  | refused (e : RegistryError)

/-! ## The table -/

/-- The answer to a call that may be refused; the table stays as it is if it is refused. -/
def attempt (m : NameMap V) (answer : Answer V) :
    Except RegistryError (NameMap V) → Answer V × NameMap V
  | .ok m' => (answer, m')
  | .error e => (.refused e, m)

/-- Carries a call out. -/
def perform (m : NameMap V) : Call V → Answer V × NameMap V
  | .insert name v => m.attempt (.value v) (m.insert name v)
  | .replace name v => (.found (m.get? name), m.put name v)
  | .rename source target => m.attempt .done (m.rename source target)
  | .remove name => (.found (m.get? name), m.erase name)
  | .retain keep => (.count (m.size - (m.retain keep).size), m.retain keep)
  | .get name => (.found (m.get? name), m)
  | .lookup name =>
    match m.find name with
    | .ok v => (.value v, m)
    | .error e => (.refused e, m)
  | .update name f =>
    match m.find name with
    | .ok v => (.value v, m.modify name f)
    | .error e => (.refused e, m)
  | .complete query cursor => (.completions (m.complete query cursor), m)

/-- Carries calls out one after the other. -/
def run (m : NameMap V) : List (Call V) → List (Answer V) × NameMap V
  | [] => ([], m)
  | call :: calls =>
    let (answer, next) := m.perform call
    let (answers, last) := next.run calls
    (answer :: answers, last)

/-! ## The list -/

/-- `Effect kind entries call answer entries'`: the call turns the one list into the other. -/
inductive Effect (kind : String) : Entries V → Call V → Answer V → Entries V → Prop where
  | inserted {entries name v} (hfree : name ∉ entries.names) :
    Effect kind entries (.insert name v) (.value v) (entries ++ [(name, v)])
  | taken {entries name v} (htaken : name ∈ entries.names) :
    Effect kind entries (.insert name v) (.refused (.duplicateName kind name)) entries
  | replaced {before name old after v} :
    Effect kind (before ++ (name, old) :: after) (.replace name v) (.found (some old))
      (before ++ (name, v) :: after)
  | added {entries name v} (hfree : name ∉ entries.names) :
    Effect kind entries (.replace name v) (.found none) (entries ++ [(name, v)])
  | renamed {before source v after target}
    (hfree : target ∉ Entries.names (before ++ (source, v) :: after)) :
    Effect kind (before ++ (source, v) :: after) (.rename source target) .done
      (before ++ (target, v) :: after)
  | sameName {entries name} (hmem : name ∈ entries.names) :
    Effect kind entries (.rename name name) .done entries
  | targetTaken {entries source target} (hsource : source ∈ entries.names)
    (htarget : target ∈ entries.names) (hne : source ≠ target) :
    Effect kind entries (.rename source target) (.refused (.duplicateName kind target)) entries
  | sourceMissing {entries source target} (hmissing : source ∉ entries.names) :
    Effect kind entries (.rename source target) (.refused (.notFound kind source)) entries
  | removed {before name v after} :
    Effect kind (before ++ (name, v) :: after) (.remove name) (.found (some v)) (before ++ after)
  | notRemoved {entries name} (hmissing : name ∉ entries.names) :
    Effect kind entries (.remove name) (.found none) entries
  | retained {entries keep} :
    Effect kind entries (.retain keep) (.count (entries.countP fun entry => !keep entry.1 entry.2))
      (entries.filter fun entry => keep entry.1 entry.2)
  | got {before name v after} :
    Effect kind (before ++ (name, v) :: after) (.get name) (.found (some v))
      (before ++ (name, v) :: after)
  | notGot {entries name} (hmissing : name ∉ entries.names) :
    Effect kind entries (.get name) (.found none) entries
  | lookedUp {before name v after} :
    Effect kind (before ++ (name, v) :: after) (.lookup name) (.value v)
      (before ++ (name, v) :: after)
  | notLookedUp {entries name} (hmissing : name ∉ entries.names) :
    Effect kind entries (.lookup name) (.refused (.notFound kind name)) entries
  | updated {before name v after f} :
    Effect kind (before ++ (name, v) :: after) (.update name f) (.value v)
      (before ++ (name, f v) :: after)
  | notUpdated {entries name f} (hmissing : name ∉ entries.names) :
    Effect kind entries (.update name f) (.refused (.notFound kind name)) entries
  | completed {entries query cursor typed} (hcut : Text.IsCut query.toList cursor typed) :
    Effect kind entries (.complete query cursor)
      (.completions ⟨entries.names.filter fun name => typed.isPrefixOf name.toList, 0,
        Text.byteLength typed⟩) entries

/-- `Follows kind entries calls answers entries'`: the calls, one after the other, turn the one
list into the other. -/
inductive Follows (kind : String) :
    Entries V → List (Call V) → List (Answer V) → Entries V → Prop where
  | nil {entries} : Follows kind entries [] [] entries
  | cons {entries call answer next calls answers last} (hfirst : Effect kind entries call answer next)
    (hrest : Follows kind next calls answers last) :
    Follows kind entries (call :: calls) (answer :: answers) last

variable {kind : String} {entries entries' : Entries V} {call : Call V} {answer : Answer V}

/-- A name is in no entry or in one among the others. -/
theorem absent_or_among (entries : Entries V) (name : String) :
    name ∉ entries.names ∨ ∃ before v after, entries = before ++ (name, v) :: after :=
  (em' (name ∈ entries.names)).imp_right Entries.exists_append_cons

theorem exists_effect (kind : String) (entries : Entries V) (call : Call V) :
    ∃ answer entries', Effect kind entries call answer entries' := by
  cases call with
  | insert name v =>
    by_cases hname : name ∈ entries.names
    · exact ⟨_, _, .taken hname⟩
    · exact ⟨_, _, .inserted hname⟩
  | rename source target =>
    obtain hmissing | ⟨before, v, after, rfl⟩ := absent_or_among entries source
    · exact ⟨_, _, .sourceMissing hmissing⟩
    · have hsource : source ∈ Entries.names (before ++ (source, v) :: after) := by
        simp [Entries.names_append_cons]
      by_cases htarget : target ∈ Entries.names (before ++ (source, v) :: after)
      · by_cases hne : source = target
        · subst hne
          exact ⟨_, _, .sameName hsource⟩
        · exact ⟨_, _, .targetTaken hsource htarget hne⟩
      · exact ⟨_, _, .renamed htarget⟩
  | retain keep => exact ⟨_, _, .retained⟩
  | complete query cursor => exact ⟨_, _, .completed (Text.isCut_takeBytes _ _)⟩
  | replace name v =>
    obtain hfree | ⟨before, old, after, rfl⟩ := absent_or_among entries name
    · exact ⟨_, _, .added hfree⟩
    · exact ⟨_, _, .replaced⟩
  | remove name =>
    obtain hmissing | ⟨before, v, after, rfl⟩ := absent_or_among entries name
    · exact ⟨_, _, .notRemoved hmissing⟩
    · exact ⟨_, _, .removed⟩
  | get name =>
    obtain hmissing | ⟨before, v, after, rfl⟩ := absent_or_among entries name
    · exact ⟨_, _, .notGot hmissing⟩
    · exact ⟨_, _, .got⟩
  | lookup name =>
    obtain hmissing | ⟨before, v, after, rfl⟩ := absent_or_among entries name
    · exact ⟨_, _, .notLookedUp hmissing⟩
    · exact ⟨_, _, .lookedUp⟩
  | update name f =>
    obtain hmissing | ⟨before, v, after, rfl⟩ := absent_or_among entries name
    · exact ⟨_, _, .notUpdated hmissing⟩
    · exact ⟨_, _, .updated⟩

/-- A call keeps names distinct. -/
theorem Effect.nodup (h : Effect kind entries call answer entries')
    (hdistinct : entries.names.Nodup) : entries'.names.Nodup := by
  cases h with
  | inserted hfree => exact Entries.nodup_names_append hdistinct hfree
  | added hfree => exact Entries.nodup_names_append hdistinct hfree
  | replaced => simpa [Entries.names_append_cons] using hdistinct
  | updated => simpa [Entries.names_append_cons] using hdistinct
  | renamed hfree =>
    rw [Entries.names_append_cons, List.nodup_middle, List.nodup_cons] at hdistinct ⊢
    refine ⟨fun hmem => hfree ?_, hdistinct.2⟩
    rw [Entries.names_append_cons]
    rcases List.mem_append.mp hmem with hbefore | hafter
    · exact List.mem_append_left _ hbefore
    · exact List.mem_append_right _ (List.mem_cons_of_mem _ hafter)
  | removed =>
    rw [Entries.names_append_cons, List.nodup_middle, List.nodup_cons] at hdistinct
    simpa [Entries.names] using hdistinct.2
  | retained => exact hdistinct.sublist ((List.filter_sublist).map _)
  | _ => exact hdistinct

/-! ## What the table does -/

theorem contains_eq (m : NameMap V) (name : String) :
    m.contains name = decide (name ∈ m.entries.names) :=
  m.entries.contains_eq name

theorem find_of_not_mem {name : String} (h : name ∉ entries.names) :
    (NameMap.mk kind entries).find name = .error (.notFound kind name) := by
  rw [find, get?, Entries.get?_eq_none_iff.mpr h]
  rfl

theorem find_append_cons {before after : Entries V} {name : String} {v : V}
    (hdistinct : (Entries.names (before ++ (name, v) :: after)).Nodup) :
    (NameMap.mk kind (before ++ (name, v) :: after)).find name = .ok v := by
  rw [find, get?, Entries.get?_append_cons hdistinct]

/-- What goes is what stays away. -/
theorem size_sub_size_retain (m : NameMap V) (keep : String → V → Bool) :
    m.size - (m.retain keep).size = m.entries.countP fun entry => !keep entry.1 entry.2 := by
  have hall := m.entries.length_eq_countP_add_countP fun entry => keep entry.1 entry.2
  have hkept : (m.retain keep).size = m.entries.countP fun entry => keep entry.1 entry.2 :=
    List.countP_eq_length_filter.symm
  rw [size, hall, hkept, Nat.add_sub_cancel_left]
  simp

theorem perform_eq (h : Effect kind entries call answer entries')
    (hdistinct : entries.names.Nodup) :
    perform ⟨kind, entries⟩ call = (answer, ⟨kind, entries'⟩) := by
  cases h with
  | inserted hfree => simp [perform, insert, contains_eq, hfree, attempt, Entries.append]
  | taken htaken => simp [perform, insert, contains_eq, htaken, attempt, duplicate]
  | replaced =>
    simp [perform, get?, put, Entries.get?_append_cons hdistinct, Entries.put_append_cons hdistinct]
  | added hfree =>
    simp [perform, get?, put, Entries.get?_eq_none_iff.mpr hfree, Entries.put_of_not_mem hfree,
      Entries.append]
  | @renamed before source v after target hfree =>
    have hne : source ≠ target := by
      rintro rfl
      exact hfree (by simp [Entries.names_append_cons])
    have hsource : source ∈ Entries.names (before ++ (source, v) :: after) := by
      simp [Entries.names_append_cons]
    simp [perform, rename, contains_eq, hsource, hfree, hne, attempt,
      Entries.rename_append_cons hdistinct]
  | sameName hmem => simp [perform, rename, contains_eq, hmem, attempt]
  | targetTaken hsource htarget hne =>
    simp [perform, rename, contains_eq, hsource, htarget, hne, attempt, duplicate]
  | sourceMissing hmissing => simp [perform, rename, contains_eq, hmissing, attempt, notFound]
  | removed =>
    simp [perform, get?, erase, Entries.get?_append_cons hdistinct,
      Entries.erase_append_cons hdistinct]
  | notRemoved hmissing =>
    simp [perform, get?, erase, Entries.get?_eq_none_iff.mpr hmissing,
      Entries.erase_of_not_mem hmissing]
  | retained => rw [perform, size_sub_size_retain]; rfl
  | got => simp [perform, get?, Entries.get?_append_cons hdistinct]
  | notGot hmissing => simp [perform, get?, Entries.get?_eq_none_iff.mpr hmissing]
  | lookedUp => simp [perform, find_append_cons hdistinct]
  | notLookedUp hmissing => simp [perform, find_of_not_mem hmissing]
  | updated =>
    simp [perform, find_append_cons hdistinct, modify, Entries.modify_append_cons hdistinct]
  | notUpdated hmissing => simp [perform, find_of_not_mem hmissing]
  | completed hcut =>
    rw [hcut.eq_takeBytes, Text.byteLength_takeBytes]
    rfl

theorem perform_eq_iff {m m' : NameMap V} (hdistinct : m.entries.names.Nodup) :
    m.perform call = (answer, m') ↔
      m'.kind = m.kind ∧ Effect m.kind m.entries call answer m'.entries := by
  constructor
  · obtain ⟨answer', entries', heffect⟩ := exists_effect m.kind m.entries call
    intro h
    obtain ⟨rfl, rfl⟩ := Prod.mk.inj (h.symm.trans (perform_eq heffect hdistinct))
    exact ⟨rfl, heffect⟩
  · rintro ⟨hkind, heffect⟩
    rw [show m' = ⟨m.kind, m'.entries⟩ from hkind ▸ rfl]
    exact perform_eq heffect hdistinct

/-! ## Calls one after the other -/

variable {m m' : NameMap V} {calls : List (Call V)} {answers : List (Answer V)}

theorem run_cons_iff : m.run (call :: calls) = (answers, m') ↔
    ∃ answer next rest, m.perform call = (answer, next) ∧ next.run calls = (rest, m') ∧
      answers = answer :: rest := by
  constructor
  · intro h
    obtain ⟨rfl, rfl⟩ := Prod.mk.inj h
    exact ⟨_, _, _, rfl, rfl, rfl⟩
  · rintro ⟨answer, next, rest, hfirst, hrest, rfl⟩
    simp only [run, hfirst, hrest]

theorem run_eq_iff (hdistinct : m.entries.names.Nodup) :
    m.run calls = (answers, m') ↔ m'.kind = m.kind ∧ m'.entries.names.Nodup ∧
      Follows m.kind m.entries calls answers m'.entries := by
  induction calls generalizing m answers with
  | nil =>
    constructor
    · intro h
      obtain ⟨rfl, rfl⟩ := Prod.mk.inj h
      exact ⟨rfl, hdistinct, .nil⟩
    · rintro ⟨hkind, -, hfollows⟩
      obtain ⟨kind, entries⟩ := m
      obtain ⟨kind', entries'⟩ := m'
      cases hfollows
      cases hkind
      rfl
  | cons call calls ih =>
    rw [run_cons_iff]
    constructor
    · rintro ⟨answer, next, rest, hfirst, hrest, rfl⟩
      obtain ⟨hkind, heffect⟩ := (perform_eq_iff hdistinct).mp hfirst
      obtain ⟨hkind', hdistinct', hrest⟩ := (ih (heffect.nodup hdistinct)).mp hrest
      exact ⟨hkind'.trans hkind, hdistinct', .cons heffect (hkind ▸ hrest)⟩
    · rintro ⟨hkind, hdistinct', hfollows⟩
      cases hfollows with
      | @cons _ _ _ next _ _ _ heffect hrest =>
        exact ⟨_, ⟨m.kind, next⟩, _, perform_eq heffect hdistinct,
          (ih (heffect.nodup hdistinct)).mpr ⟨hkind, hdistinct', hrest⟩, rfl⟩

/-- **A table is a list of named entries with distinct names.** The calls give the answers and
leave the table exactly if they give these answers on the list and leave the entries of that
table, in that order. -/
theorem run_eq_iff_follows (kind : String) (calls : List (Call V)) (answers : List (Answer V))
    (m : NameMap V) :
    run ⟨kind, []⟩ calls = (answers, m) ↔
      m.kind = kind ∧ m.entries.names.Nodup ∧ Follows kind [] calls answers m.entries :=
  run_eq_iff List.nodup_nil

/-- What is left keeps its order, and a renamed entry its place. -/
example : (run ⟨"value", []⟩ [.insert "a" 1, .insert "b" 2, .insert "c" 3, .insert "d" 4,
    .remove "b", .rename "c" "z", .replace "a" 5]).2.entries = [("a", 5), ("z", 3), ("d", 4)] := by
  decide

end ModalEdit.NameMap
