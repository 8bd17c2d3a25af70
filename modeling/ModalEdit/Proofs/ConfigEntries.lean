import ModalEdit.Proofs.ListOptions
import ModalEdit.Proofs.OptionHistories
import ModalEdit.Proofs.SortedTables

/-!
# Entries of a config do not depend on each other

An entry of a config that fails changes nothing. Whether an entry fails depends on no other entry
either, be it one that fails or one that succeeds: what an entry needs is a scope that is there, and
for an option its type, and entries neither open documents nor change types. `Alike` is what the
scenes have in common that entries lead to, `Independent` is what an act needs so that acts like it
can neither make it fail nor succeed.

So the errors that a config gives are those of the entries that fail where it is applied, each by
itself, and without these entries it leads to the same scene and gives no errors
(`bad_entries_affect_nothing_else`).
-/

namespace ModalEdit

/-! ## Failures -/

/-- The error of a result that is one. -/
def fault? {ε α : Type} : Except ε α → Option ε
  | .ok _ => none
  | .error error => some error

@[simp] theorem fault?_map {ε α β : Type} (result : Except ε α) (f : α → β) :
    fault? (result.map f) = fault? result := by
  cases result <;> rfl

namespace Act

variable {σ : Type} {act : Act σ Unit} {acts : List (Act σ Unit)} {s t : σ}

/-- The error with which an act fails, if it does. -/
def error? (act : Act σ Unit) (s : σ) : Option CommandError := fault? (act.perform s).1

/-- **`Independent R act`** — the act fails or succeeds in the same way in all states that are
related, it leads from a state to a related one, and if it fails it changes nothing. -/
structure Independent (R : σ → σ → Prop) (act : Act σ Unit) : Prop where
  atomic : act.Atomic
  keeps : ∀ s, R s (act.perform s).2
  agrees : ∀ {s t}, R s t → act.error? t = act.error? s

/-- An act that performs like an independent one is independent. -/
theorem Independent.congr {R : σ → σ → Prop} {act' : Act σ Unit} (h : Independent R act')
    (heq : ∀ s, act.perform s = act'.perform s) : Independent R act where
  atomic {s _ _} hfailed := h.atomic ((heq s).symm.trans hfailed)
  keeps s := heq s ▸ h.keeps s
  agrees {s t} hst := by
    unfold error?
    rw [heq, heq]
    exact h.agrees hst

theorem perform_of_error?_eq_none (h : act.error? s = none) :
    act.perform s = (.ok (), (act.perform s).2) := by
  unfold error? at h
  rcases hperform : act.perform s with ⟨_ | _, t⟩
  · rw [hperform] at h
    cases h
  · rfl

theorem perform_of_error?_eq_some (hatomic : act.Atomic) {error : CommandError}
    (h : act.error? s = some error) : act.perform s = (.error error, s) := by
  unfold error? at h
  rcases hperform : act.perform s with ⟨_ | _, t⟩
  · rw [hperform] at h
    obtain rfl := Option.some.inj h
    rw [hatomic hperform]
  · rw [hperform] at h
    cases h

theorem perform_failures_of_none (h : act.error? s = none) :
    (failures (act :: acts)).perform s = (failures acts).perform (act.perform s).2 := by
  rw [failures, perform_bind, perform_attempt]
  dsimp only
  rw [perform_of_error?_eq_none h]

theorem perform_failures_of_some (hatomic : act.Atomic) {error : CommandError}
    (h : act.error? s = some error) {errors : List CommandError}
    (hrest : (failures acts).perform s = (.ok errors, t)) :
    (failures (act :: acts)).perform s = (.ok (error :: errors), t) := by
  rw [failures, perform_bind, perform_attempt]
  dsimp only
  rw [perform_of_error?_eq_some hatomic h]
  dsimp only
  rw [perform_bind_ok hrest]
  rfl

section Related

variable {R : σ → σ → Prop} (htrans : ∀ {s t u}, R s t → R t u → R s u)

include htrans

/-- **Independent acts** — each act gives the error that it gives by itself in a state to start
from, and the acts that give none lead to the same state alone. By induction on the acts, in every
state that is related to that one. -/
theorem perform_failures_of_independent (hacts : ∀ act ∈ acts, Independent R act) (h : R s t) :
    ∃ u, R s u ∧ (failures acts).perform t = (.ok (acts.filterMap (error? · s)), u) ∧
      (failures (acts.filter fun act => (act.error? s).isNone)).perform t = (.ok [], u) := by
  induction acts generalizing t with
  | nil => exact ⟨t, h, rfl, rfl⟩
  | cons act acts ih =>
    obtain ⟨hact, hacts⟩ := List.forall_mem_cons.mp hacts
    have hagrees := hact.agrees h
    cases herror : act.error? s with
    | none =>
      rw [herror] at hagrees
      obtain ⟨u, hu, hall, hpassing⟩ := ih hacts (htrans h (hact.keeps t))
      refine ⟨u, hu, ?_, ?_⟩
      · rw [List.filterMap_cons_none (f := (error? · s)) herror, perform_failures_of_none hagrees,
          hall]
      · rw [List.filter_cons_of_pos (by rw [herror]; rfl), perform_failures_of_none hagrees,
          hpassing]
    | some error =>
      rw [herror] at hagrees
      obtain ⟨u, hu, hall, hpassing⟩ := ih hacts h
      refine ⟨u, hu, ?_, ?_⟩
      · rw [List.filterMap_cons_some (f := (error? · s)) herror,
          perform_failures_of_some hact.atomic hagrees hall]
      · rw [List.filter_cons_of_neg (by rw [herror]; nofun), hpassing]

end Related

end Act

/-! ## What entries leave alone -/

namespace Scene

open Act

/-- The types of the global options. -/
def optionTypes (tables : ScopeTables) (name : String) : Option OptionType :=
  (tables.options.get? name).map (·.type)

/-- **`Alike s t`** — the same scopes are there in both scenes, and the same options with the same
types. -/
structure Alike (s t : Scene) : Prop where
  sites : ∀ scope, t.site scope = s.site scope
  types : ∀ name, optionTypes t.editor.scopes name = optionTypes s.editor.scopes name

theorem alike_refl (s : Scene) : Alike s s := ⟨fun _ => rfl, fun _ => rfl⟩

theorem Alike.trans {s t u : Scene} (h : Alike s t) (h' : Alike t u) : Alike s u where
  sites scope := (h'.sites scope).trans (h.sites scope)
  types name := (h'.types name).trans (h.types name)

/-- Changing tables moves none. -/
theorem site_setTablesAt (s : Scene) (place : Site) (tables : ScopeTables) (scope : Scope) :
    (s.setTablesAt place tables).site scope = s.site scope := by
  cases place with
  | editor => cases scope <;> rfl
  | document id => cases scope <;> rfl
  | window =>
    cases scope with
    | window =>
      show (if (s.context.window.map _).isSome then _ else _) = _
      rw [Option.isSome_map]
      rfl
    | _ => rfl

theorem alike_setTablesAt {s : Scene} {place : Site} {tables : ScopeTables}
    (h : ∀ name, optionTypes tables name = optionTypes (s.tablesAt place) name) :
    Alike s (s.setTablesAt place tables) where
  sites := s.site_setTablesAt place tables
  types name := by
    cases place with
    | editor => exact h name
    | document id => rfl
    | window => rfl

/-- A change of tables is independent if it keeps the types of options, and whether it fails
depends on nothing else in the tables. -/
theorem independent_updateTables {scope : Scope}
    {f : ScopeTables → Except RegistryError (Unit × ScopeTables)}
    (hkeeps : ∀ tables found, f tables = .ok found →
      ∀ name, optionTypes found.2 name = optionTypes tables name)
    (hagrees : ∀ {s t : Scene} {place}, Alike s t → s.site scope = .ok place →
      fault? (f (t.tablesAt place)) = fault? (f (s.tablesAt place))) :
    Independent Alike (updateTables scope f) where
  atomic := atomic_updateTables scope f
  keeps s := by
    rw [perform_updateTables]
    cases s.site scope with
    | error error => exact alike_refl s
    | ok place =>
      dsimp only
      cases hf : f (s.tablesAt place) with
      | error error => exact alike_refl s
      | ok found => exact alike_setTablesAt (hkeeps _ found hf)
  agrees {s t} h := by
    unfold error?
    -- the scope is at the same place in both scenes, or there is none in either
    rw [perform_updateTables, perform_updateTables, h.sites]
    cases hsite : s.site scope with
    | error error => rfl
    | ok place =>
      have hfault := hagrees h hsite
      dsimp only
      cases hs : f (s.tablesAt place) <;> cases ht : f (t.tablesAt place) <;>
        simp_all [fault?]

variable {α : Type}

theorem independent_throw (error : CommandError) :
    Independent Alike (throw error : Act Scene Unit) where
  atomic hfailed := (congrArg Prod.snd hfailed).symm
  keeps := alike_refl
  agrees _ := rfl

/-- What comes first may fail for reasons of its own. -/
theorem independent_bind {act : Act Scene α} {f : α → Act Scene Unit}
    {result : Except CommandError α} (h : ∀ s, act.perform s = (result, s))
    (h' : ∀ a, Independent Alike (f a)) : Independent Alike (act >>= f) := by
  cases result with
  | error error =>
    refine (independent_throw error).congr fun s => ?_
    rw [perform_bind, h]
    rfl
  | ok a => exact (h' a).congr fun s => perform_bind_ok (h s)

/-! ## Entries -/

theorem perform_readKeys_eq (text : String) (s : Scene) :
    (readKeys text).perform s = ((Key.readSequence text).mapError .ofKeyError, s) := by
  unfold readKeys
  cases Key.readSequence text <;> rfl

/-- Whether an option can be set to a text depends on its type. -/
theorem fault?_setText (store : OptionStore) (name text : String) :
    fault? (store.setText name text none) =
      match (store.get? name).map (·.type) with
      | none => some (.notFound "option" name)
      | some type => fault? (OptionValue.parse name type text) := by
  unfold OptionStore.setText OptionStore.base
  rw [Option.or_none]
  cases store.get? name with
  | none => rfl
  | some value =>
    show fault? (do
      let value ← OptionValue.parse name value.type text
      return (value, store.set name value)) = fault? (OptionValue.parse name value.type text)
    cases OptionValue.parse name value.type text <;> rfl

theorem independent_applyOption (name : String) (value : Toml.Value) :
    Independent Alike (applyOption name value) := by
  unfold applyOption
  split
  next error _ => exact independent_throw _
  next text _ =>
    refine independent_updateTables ?_ ?_
    · intro tables found hfound other
      obtain ⟨⟨value, options⟩, hset, rfl⟩ := map_eq_ok.mp hfound
      obtain ⟨base, hbase, hvalue, rfl⟩ := OptionStore.setText_eq_ok.mp hset
      rw [OptionStore.base_eq_ok, Option.or_none] at hbase
      show ((tables.options.set name value).get? other).map (·.type) = optionTypes tables other
      rw [OptionStore.get?_set, optionTypes]
      split
      next heq =>
        subst heq
        rw [hbase]
        exact congrArg some hvalue.type_eq
      next => rfl
    · intro s t place halike hplace
      obtain rfl : Site.editor = place := Except.ok.inj hplace
      have htypes := halike.types name
      unfold optionTypes at htypes
      rw [fault?_map, fault?_map, fault?_setText, fault?_setText]
      show (match (t.editor.scopes.options.get? name).map (·.type) with
        | none => _
        | some type => _) = _
      rw [htypes]
      rfl

theorem independent_applyHook (entry : HookEntry) : Independent Alike (applyHook entry) := by
  refine independent_bind (fun s => perform_ofRegistry _ s) fun scope => ?_
  refine independent_updateTables ?_ ?_
  · intro tables found hadd name
    obtain ⟨hooks, -, rfl⟩ := map_eq_ok.mp hadd
    rfl
  · intro s t place _ _
    -- a filter is one or not, whatever the table
    rw [fault?_map, fault?_map, HookTable.add, HookTable.add, fault?_map, fault?_map]

theorem independent_applyKey (entry : KeyEntry) : Independent Alike (applyKey entry) := by
  -- scope, mode and keys are read from the entry alone, before the mapping is made
  refine independent_bind (fun s => perform_ofRegistry _ s) fun scope => ?_
  refine independent_bind (fun s => perform_ofRegistry _ s) fun mode => ?_
  refine independent_bind (perform_readKeys_eq _) fun keys => ?_
  split
  · refine independent_bind (perform_readKeys_eq _) fun mapping => independent_updateTables ?_ ?_
    · intro tables found hmap name
      obtain rfl := Except.ok.inj hmap
      rfl
    · intro s t place _ _
      rfl
  · exact independent_throw _

end Scene

/-- An entry of a config. -/
inductive ConfigEntry where
  | option (name : String) (value : Toml.Value)
  | hook (entry : HookEntry)
  | key (entry : KeyEntry)

namespace ConfigEntry

/-- What an entry does. -/
def act : ConfigEntry → Act Scene Unit
  | .option name value => Scene.applyOption name value
  | .hook entry => Scene.applyHook entry
  | .key entry => Scene.applyKey entry

/-- The error with which an entry fails in a scene, if it does. -/
def error? (entry : ConfigEntry) (s : Scene) : Option CommandError := entry.act.error? s

/-- Whether an entry succeeds in a scene. -/
def passes (s : Scene) (entry : ConfigEntry) : Bool := (entry.error? s).isNone

theorem independent_act (entry : ConfigEntry) : Act.Independent Scene.Alike entry.act := by
  cases entry with
  | option name value => exact Scene.independent_applyOption name value
  | hook entry => exact Scene.independent_applyHook entry
  | key entry => exact Scene.independent_applyKey entry

end ConfigEntry

namespace Config

/-- The entries in the order in which they take effect. -/
def entries (config : Config) : List ConfigEntry :=
  config.options.map (fun (name, value) => .option name value) ++ config.hooks.map .hook ++
    config.keys.map .key

/-- The config without the entries that fail in a scene. -/
def passing (config : Config) (s : Scene) : Config :=
  { config with
    options := config.options.filter fun (name, value) => (ConfigEntry.option name value).passes s
    hooks := config.hooks.filter fun entry => (ConfigEntry.hook entry).passes s
    keys := config.keys.filter fun entry => (ConfigEntry.key entry).passes s }

theorem entries_passing (config : Config) (s : Scene) :
    (config.passing s).entries = config.entries.filter (ConfigEntry.passes s) := by
  simp only [entries, passing, List.filter_append, List.filter_map]
  rfl

theorem entryActs_eq {config : Config} (hinit : config.init = []) :
    Scene.entryActs config = config.entries.map ConfigEntry.act := by
  simp only [Scene.entryActs, entries, hinit, List.map_append, List.map_map, List.map_nil,
    List.append_nil]
  rfl

end Config

namespace Scene

open Act

/-- **A bad entry affects nothing but itself** — a config gives the errors of the options, hooks and
keys that fail in the scene, in this order, and leads to where the config without them leads, which
gives no errors. What has been applied before an entry makes no difference to whether and how it
fails. Options are in the order of their names in all configs that are merged, or read by a reader
that keeps tables by key, such as the one of this library. -/
theorem bad_entries_affect_nothing_else :
    (∀ (s : Scene) (config : Config), config.init = [] →
      ∃ t, (applyConfig config).perform s = (.ok (config.entries.filterMap (·.error? s)), t) ∧
        (applyConfig (config.passing s)).perform s = (.ok [], t) ∧
        ∀ before entry after, config.entries = before ++ entry :: after →
          entry.error? ((failures (before.map ConfigEntry.act)).perform s).2 = entry.error? s) ∧
    (∀ read?, Toml.KeepsSorted read? → ∀ text config, Config.parseWith read? text = .ok config →
      Toml.Table.IsSorted config.options) ∧
    (∀ text config, Config.parse text = .ok config → Toml.Table.IsSorted config.options) ∧
    ∀ first second : Config, Toml.Table.IsSorted (first.merge second).options := by
  have hindependent : ∀ entries : List ConfigEntry, ∀ act ∈ entries.map ConfigEntry.act,
      Independent Alike act := by
    intro entries act hact
    obtain ⟨entry, -, rfl⟩ := List.mem_map.mp hact
    exact entry.independent_act
  refine ⟨?_, fun _ hread _ _ => Config.sorted_options_of_parseWith hread,
    fun _ _ => Config.sorted_options_of_parseWith Toml.keepsSorted_parse?,
    Config.sorted_options_merge⟩
  intro s config hinit
  obtain ⟨t, -, hall, hpassing⟩ := perform_failures_of_independent (R := Alike) Alike.trans
    (hindependent config.entries) (alike_refl s)
  rw [List.filterMap_map] at hall
  rw [List.filter_map] at hpassing
  refine ⟨t, ?_, ?_, ?_⟩
  · rw [applyConfig, Config.entryActs_eq hinit, hall]
    rfl
  · rw [applyConfig, Config.entryActs_eq (show (config.passing s).init = [] from hinit),
      Config.entries_passing]
    exact hpassing
  · intro before entry after _
    obtain ⟨u, halike, hbefore, -⟩ :=
      perform_failures_of_independent (R := Alike) Alike.trans (hindependent before) (alike_refl s)
    rw [hbefore]
    exact entry.independent_act.agrees halike

/-- An option that is not there and one that is, a hook in a scope that is no scope, two keys at
once, which are no key, and a mapping for a window where there is none. -/
theorem bad_entries_affect_nothing_else_mixed :
    let hook : HookEntry := ⟨"buffer", "BufCreate", ".*", "", "echo new"⟩
    let key : KeyEntry := ⟨"global", "insert", "x", "y"⟩
    let config : Config :=
      { options := [("nosuchoption", .integer 1), ("tabstop", .integer 3)]
        hooks := [⟨"nowhere", "BufCreate", ".*", "", "echo never"⟩, hook]
        keys := [⟨"global", "normal", "ab", "x"⟩, key, ⟨"window", "normal", "x", "y"⟩] }
    let remaining : Config :=
      { options := [("tabstop", .integer 3)], hooks := [hook], keys := [key] }
    let d : Document :=
      { name := "notes", text := "\n".toList, nextListener := 1
        listeners := [⟨0, .tracker default⟩] }
    let s : Scene :=
      ⟨{ store := [d], scopes := { options := ⟨[("tabstop", { value := .int 8 })]⟩ } },
        { name := "main", document := 0, tracker := 0 }⟩
    let errors : List CommandError :=
      [.registry (.notFound "option" "nosuchoption"), .registry (.unknownScope "nowhere"),
        .invalidArgument "'ab' is not a single key", .failed "no window in context"]
    let text := "[options]\ntabstop = 3\n"
    (∃ t, (applyConfig config).perform s = (.ok errors, t) ∧
      (applyConfig remaining).perform s = (.ok [], t) ∧
      t.editor.scopes.options.get? "tabstop" = some (.int 3)) ∧
    (ConfigEntry.key key).error?
      ((failures ((config.entries.take 5).map ConfigEntry.act)).perform s).2 = none ∧
    Toml.KeepsSorted Toml.parse? ∧
    (∃ read, Config.parse text = .ok read ∧ read.options.map Prod.fst = ["tabstop"] ∧
      Toml.Table.IsSorted read.options) ∧
    Toml.Table.IsSorted (config.merge remaining).options := by
  intro hook key config remaining d s errors text
  obtain ⟨happly, hsorted, -, hmerge⟩ := bad_entries_affect_nothing_else
  obtain ⟨t, hall, hpassing, heach⟩ := happly s config rfl
  have herrors : config.entries.filterMap (·.error? s) = errors := by decide +kernel
  have hpasses : config.entries.map (ConfigEntry.passes s) =
      [false, true, false, true, false, true, false] := by decide +kernel
  have hremaining : config.passing s = remaining := by
    simp only [config, Config.entries, List.map_cons, List.map_nil, List.cons_append,
      List.nil_append, List.cons.injEq] at hpasses
    simp [Config.passing, config, remaining, hpasses]
  have hkey : (ConfigEntry.key key).error? s = none := by decide +kernel
  rw [herrors] at hall
  rw [hremaining] at hpassing
  refine ⟨⟨t, hall, hpassing, ?_⟩, ?_, Toml.keepsSorted_parse?, ?_, hmerge config remaining⟩
  · have ht : t = ((applyConfig remaining).perform s).2 := by rw [hpassing]
    rw [ht]
    decide +kernel
  · rw [← hkey]
    exact heach _ (.key key) [.key ⟨"window", "normal", "x", "y"⟩] rfl
  · have hnames : (Config.parse text).toOption.map (·.options.map Prod.fst) = some ["tabstop"] := by
      decide +kernel
    cases hread : Config.parse text with
    | error error => rw [hread] at hnames; cases hnames
    | ok read =>
      rw [hread] at hnames
      exact ⟨read, rfl, Option.some.inj hnames,
        hsorted Toml.parse? Toml.keepsSorted_parse? text read hread⟩

end Scene

end ModalEdit
