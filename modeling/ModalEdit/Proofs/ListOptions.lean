import ModalEdit.Proofs.MovingCommands
import ModalEdit.Proofs.OptionAssignments
import ModalEdit.Proofs.OptionTexts

/-!
# Lists that pass through text

A list is written as one text where a config sets an option to an array, and where a command line
asks for what is selected. Read back, it is the list that it was: separators and backslashes are
escaped, and an empty text between separators is an element. Only the list of one empty text is
written as the empty text, and that is read as the list of none (`ListText.split_join_iff`).

What an entry of a config does to a global option depends on no other entry but on those of that
name: all others keep it (`keeps_applyOption`, `keeps_applyHook`, `keeps_applyKey`), and command
lines come last. So an array of texts is what the option holds by then
(`lists_come_back_from_text`).
-/

namespace ModalEdit

/-! ## Lists -/

namespace ListText

/-- **Which lists come back** — all but that of one empty text. -/
theorem split_join_iff (items : List String) : split (join items) = items ↔ items ≠ [""] := by
  constructor
  · rintro h rfl
    exact split_ne_blank _ h
  · exact split_join

end ListText

namespace Config

theorem optionTexts?_strings (items : List String) :
    optionTexts? (items.map .string) = some items := by
  induction items with
  | nil => rfl
  | cons item items ih =>
    rw [List.map_cons, optionTexts?, ih]
    rfl

/-- An array of texts is written as a list. -/
theorem optionText_strings (name : String) (items : List String) :
    optionText name (.array (items.map .string)) = .ok (ListText.join items) := by
  rw [optionText, optionText?, optionTexts?_strings]
  rfl

end Config

/-- A list option is set to the list that is read from a text. -/
theorem OptionStore.setText_list {store : OptionStore} {name : String} {value : OptionValue}
    (hvalue : store.get? name = some value) (htype : value.type = .strList) (text : String) :
    store.setText name text none =
      .ok (.strList (ListText.split text), store.set name (.strList (ListText.split text))) := by
  refine setText_eq_ok.mpr ⟨value, base_eq_ok.mpr ?_, ⟨_, ?_, rfl⟩, rfl⟩
  · rw [hvalue]
    rfl
  · rw [htype]
    rfl

/-! ## Acts one by one -/

namespace Act

variable {σ : Type}

theorem perform_failures_cons (act : Act σ Unit) (rest : List (Act σ Unit)) (s : σ) :
    ((failures (act :: rest)).perform s).2 = ((failures rest).perform (act.perform s).2).2 := by
  rw [failures, perform_bind, perform_attempt]
  dsimp only
  cases (act.perform s).1 with
  | ok _ => rfl
  | error error =>
    dsimp only
    rw [perform_bind]
    split
    next hrest => rw [hrest]; rfl
    next hrest => rw [hrest]

/-- Acts that come later start where the others have led, whichever of them failed. -/
theorem perform_failures_append (acts more : List (Act σ Unit)) (s : σ) :
    ((failures (acts ++ more)).perform s).2 =
      ((failures more).perform ((failures acts).perform s).2).2 := by
  induction acts generalizing s with
  | nil => rfl
  | cons act acts ih =>
    rw [List.cons_append, perform_failures_cons, ih, perform_failures_cons]

end Act

namespace Scene

open Act

/-! ## Entries of a config -/

/-- **`LeavesOption name act`** — whether it fails or not, the act leaves the global option as it
is. -/
def LeavesOption (name : String) (act : Act Scene Unit) : Prop :=
  ∀ s, (act.perform s).2.editor.scopes.options.get? name = s.editor.scopes.options.get? name

variable {name other : String} {s : Scene}

theorem keeps_bind {α : Type} {act : Act Scene α} {f : α → Act Scene Unit} (h : act.Reads)
    (h' : ∀ a, LeavesOption name (f a)) : LeavesOption name (act >>= f) := by
  intro s
  have hread := h s
  rw [perform_bind]
  split
  next a t hperform =>
    rw [hperform] at hread
    obtain rfl : t = s := hread
    exact h' a t
  next error t hperform =>
    rw [hperform] at hread
    obtain rfl : t = s := hread
    rfl

theorem keeps_updateTables {scope : Scope}
    {f : ScopeTables → Except RegistryError (Unit × ScopeTables)}
    (h : ∀ tables found, f tables = .ok found →
      found.2.options.get? name = tables.options.get? name) :
    LeavesOption name (updateTables scope f) := by
  intro s
  rw [perform_updateTables]
  cases s.site scope with
  | error error => rfl
  | ok place =>
    dsimp only
    cases hf : f (s.tablesAt place) with
    | error error => rfl
    | ok found =>
      cases place with
      | editor => exact h _ found hf
      | document id => rfl
      | window => rfl

theorem keeps_applyHook (entry : HookEntry) : LeavesOption name (applyHook entry) := by
  refine keeps_bind (reads_ofRegistry _) fun scope => keeps_updateTables ?_
  intro tables found hadd
  obtain ⟨hooks, -, rfl⟩ := map_eq_ok.mp hadd
  rfl

theorem reads_readKeys (text : String) : (readKeys text).Reads := by
  unfold readKeys
  split
  · exact fun _ => rfl
  · exact fun _ => rfl

theorem keeps_applyKey (entry : KeyEntry) : LeavesOption name (applyKey entry) := by
  refine keeps_bind (reads_ofRegistry _) fun scope => keeps_bind (reads_ofRegistry _) fun mode => ?_
  refine keeps_bind (reads_readKeys _) fun keys => ?_
  split
  · refine keeps_bind (reads_readKeys _) fun mapping => keeps_updateTables ?_
    intro tables found hmap
    obtain rfl := Except.ok.inj hmap
    rfl
  · exact fun _ => rfl

/-- Setting one option keeps the others. -/
theorem keeps_applyOption (hne : name ≠ other) (value : Toml.Value) :
    LeavesOption name (applyOption other value) := by
  unfold applyOption
  split
  next => exact fun _ => rfl
  next text _ =>
    refine keeps_updateTables ?_
    intro tables found hfound
    obtain ⟨⟨value, options⟩, hset, rfl⟩ := map_eq_ok.mp hfound
    obtain ⟨-, -, -, rfl⟩ := OptionStore.setText_eq_ok.mp hset
    exact OptionStore.get?_set.trans (if_neg hne)

theorem keeps_failures {acts : List (Act Scene Unit)} (h : ∀ act ∈ acts, LeavesOption name act)
    (s : Scene) :
    ((failures acts).perform s).2.editor.scopes.options.get? name =
      s.editor.scopes.options.get? name := by
  induction acts generalizing s with
  | nil => rfl
  | cons act acts ih =>
    obtain ⟨hact, hacts⟩ := List.forall_mem_cons.mp h
    rw [perform_failures_cons, ih hacts, hact]

/-- The entry of a list option. -/
theorem get?_applyOption_strings {value : OptionValue}
    (hvalue : s.editor.scopes.options.get? name = some value) (htype : value.type = .strList)
    (items : List String) :
    ((applyOption name (.array (items.map .string))).perform s).2.editor.scopes.options.get? name =
      some (.strList (ListText.split (ListText.join items))) := by
  have hset := OptionStore.setText_list hvalue htype (ListText.join items)
  rw [applyOption, Config.optionText_strings]
  dsimp only
  have hsite : s.site .global = .ok .editor := rfl
  have htables : s.tablesAt .editor = s.editor.scopes := rfl
  rw [perform_updateTables, hsite]
  dsimp only
  rw [htables, hset]
  exact OptionStore.get?_set.trans (if_pos rfl)

/-- The command lines of a config are executed when all its other entries have been applied. -/
theorem perform_applyConfig (config : Config) (s : Scene) :
    ((applyConfig config).perform s).2 =
      ((failures (config.init.map (execute {}))).perform
        ((applyConfig { config with init := [] }).perform s).2).2 := by
  have hlast : entryActs config =
      entryActs { config with init := [] } ++ config.init.map (execute {}) := by
    simp [entryActs]
  rw [applyConfig, hlast, perform_failures_append]
  rfl

/-- What a config makes of a list option that it names once. -/
theorem get?_applyConfig_strings {config : Config} {value : OptionValue} {items : List String}
    (hdistinct : config.options.names.Nodup)
    (hentry : (name, .array (items.map .string)) ∈ config.options)
    (hvalue : s.editor.scopes.options.get? name = some value) (htype : value.type = .strList) :
    ((applyConfig { config with init := [] }).perform s).2.editor.scopes.options.get? name =
      some (.strList (ListText.split (ListText.join items))) := by
  obtain ⟨before, after, hoptions⟩ := List.append_of_mem hentry
  rw [hoptions] at hdistinct
  have hothers : ∀ entry, entry ∈ before ∨ entry ∈ after → name ≠ entry.1 :=
    fun entry hmem => (Entries.ne_of_mem_others hdistinct hmem).symm
  have hkeeps : ∀ entries : Toml.Table, (∀ entry ∈ entries, name ≠ entry.1) →
      ∀ act ∈ entries.map (fun entry => applyOption entry.1 entry.2),
        LeavesOption name act := by
    intro entries hne act hact
    obtain ⟨entry, hmem, rfl⟩ := List.mem_map.mp hact
    exact keeps_applyOption (hne entry hmem) entry.2
  -- the entries before, the entry, the entries after it, and then hooks and keys
  have hacts : entryActs { config with init := [] } =
      before.map (fun entry => applyOption entry.1 entry.2) ++
        applyOption name (.array (items.map .string)) ::
          (after.map (fun entry => applyOption entry.1 entry.2) ++
            (config.hooks.map applyHook ++ config.keys.map applyKey)) := by
    simp [entryActs, hoptions]
  rw [applyConfig, hacts, perform_failures_append, perform_failures_cons, keeps_failures]
  · refine get?_applyOption_strings ?_ htype items
    rw [keeps_failures (hkeeps before fun entry hmem => hothers entry (.inl hmem)), hvalue]
  · refine List.forall_mem_append.mpr ⟨hkeeps after fun entry hmem => hothers entry (.inr hmem), ?_⟩
    refine List.forall_mem_append.mpr ⟨?_, ?_⟩
    · intro act hact
      obtain ⟨entry, -, rfl⟩ := List.mem_map.mp hact
      exact keeps_applyHook entry
    · intro act hact
      obtain ⟨entry, -, rfl⟩ := List.mem_map.mp hact
      exact keeps_applyKey entry

/-! ## Expansions -/

/-- What is selected, as a command line has it. -/
theorem perform_expandToken_selections {env : Environment} {token : Token}
    (hkind : token.kind = .expand .value) (hcontent : token.content = "selections")
    (hhidden : env.get? "selections" = none) (s : Scene) :
    (expandToken env token).perform s = (.ok (ListText.join s.selectedTexts), s) := by
  have hvalue : s.value? env "selections" = some (ListText.join s.selectedTexts) := by
    rw [value?, hhidden]
    rfl
  rw [expandToken, perform_bind_ok (perform_get s)]
  dsimp only
  rw [hkind, hcontent]
  dsimp only
  rw [hvalue]
  rfl

/-! ## Lists that come back -/

/-- **Lists come back from text** — exactly those that are not the list of one empty text. So an
option that is declared as a list of texts holds, when the entries of a config are applied, the very
array that the config gives for it; the command lines of the config, which can set it again, are
executed after that. And what `selections` stands for in a command line is split back into the texts
that are selected. -/
theorem lists_come_back_from_text :
    (∀ items, ListText.split (ListText.join items) = items ↔ items ≠ [""]) ∧
      (∀ (s : Scene) (config : Config) (name : String) (value : OptionValue) (items : List String),
        config.options.names.Nodup → (name, .array (items.map .string)) ∈ config.options →
        s.editor.scopes.options.get? name = some value → value.type = .strList →
        let applied := ((applyConfig { config with init := [] }).perform s).2
        (applied.editor.scopes.options.get? name = some (.strList items) ↔ items ≠ [""]) ∧
          ((applyConfig config).perform s).2 =
            ((failures (config.init.map (execute {}))).perform applied).2) ∧
      ∀ (s : Scene) (env : Environment) (token : Token), token.kind = .expand .value →
        token.content = "selections" → env.get? "selections" = none →
        ∃ text, (expandToken env token).perform s = (.ok text, s) ∧
          (ListText.split text = s.selectedTexts ↔ s.selectedTexts ≠ [""]) := by
  refine ⟨ListText.split_join_iff, ?_, ?_⟩
  · intro s config name value items hdistinct hentry hvalue htype applied
    have hstored : applied.editor.scopes.options.get? name =
        some (.strList (ListText.split (ListText.join items))) :=
      get?_applyConfig_strings hdistinct hentry hvalue htype
    refine ⟨?_, perform_applyConfig config s⟩
    rw [hstored, Option.some.injEq, OptionValue.strList.injEq]
    exact ListText.split_join_iff items
  · intro s env token hkind hcontent hhidden
    refine ⟨_, perform_expandToken_selections hkind hcontent hhidden s, ?_⟩
    exact ListText.split_join_iff s.selectedTexts

/-- Texts with separators, with escapes and without anything, the second time between a point and a
selection. -/
theorem lists_come_back_with_separators :
    let items := ["", "a:b\\", "\\"]
    let config : Config :=
      { options := [("tabstop", .boolean true), ("words", .array (items.map .string))]
        keys := [⟨"global", "normal", "x", "y"⟩], init := ["nothing"] }
    let d : Document :=
      { name := "notes", text := ":\\\n".toList, nextListener := 1
        listeners := [⟨0, .tracker ⟨[.point ⟨0, 0⟩, ⟨⟨0, 2⟩, ⟨0, 1⟩, []⟩], 0⟩⟩] }
    let s : Scene :=
      ⟨{ store := [d], scopes := { options := ⟨[("words", { value := .strList ["x"] })]⟩ } },
        { name := "main", document := 0, tracker := 0 }⟩
    let applied := ((applyConfig { config with init := [] }).perform s).2
    ListText.join items = ":a\\:b\\\\:\\\\" ∧ ListText.split ":a\\:b\\\\:\\\\" = items ∧
      applied.editor.scopes.options.get? "words" = some (.strList items) ∧
      ∃ text, (expandToken {} ⟨.expand .value, "selections", 0, 16⟩).perform s = (.ok text, s) ∧
        text = ":\\\\" ∧ ListText.split text = ["", "\\"] := by
  intro items config d s applied
  obtain ⟨hlists, hconfigs, hexpansions⟩ := lists_come_back_from_text
  have hjoin : ListText.join items = ":a\\:b\\\\:\\\\" := by decide +kernel
  have hsplit := (hlists items).mpr (by decide)
  have hstored := (hconfigs s config "words" _ items (by decide) (by simp [config]) rfl rfl).1.mpr
    (by decide)
  have hselected : s.selectedTexts = ["", "\\"] := by decide +kernel
  obtain ⟨text, hperform, hback⟩ :=
    hexpansions s {} ⟨.expand .value, "selections", 0, 16⟩ rfl rfl rfl
  rw [hselected] at hback
  refine ⟨hjoin, hjoin ▸ hsplit, hstored, text, hperform, ?_, hback.mpr (by decide)⟩
  have htext := hperform.symm.trans (perform_expandToken_selections rfl rfl rfl s)
  rw [hselected] at htext
  exact (Except.ok.inj (Prod.mk.inj htext).1).trans (by decide +kernel)

/-- One empty text is no text: in a list, in a config, and where a single point is selected. -/
theorem blank_list_is_lost :
    let config : Config := { options := [("words", .array [.string ""])] }
    let d : Document :=
      { name := "notes", text := "ab\n".toList, nextListener := 1
        listeners := [⟨0, .tracker default⟩] }
    let s : Scene :=
      ⟨{ store := [d], scopes := { options := ⟨[("words", { value := .strList ["x"] })]⟩ } },
        { name := "main", document := 0, tracker := 0 }⟩
    let text := ((expandToken {} ⟨.expand .value, "selections", 0, 16⟩).perform s).1
    ListText.split (ListText.join [""]) = [] ∧
      ((applyConfig config).perform s).2.editor.scopes.options.get? "words" = some (.strList []) ∧
      s.selectedTexts = [""] ∧ text = .ok "" ∧ ListText.split "" = [] := by
  intro config d s text
  have hstored : ((applyConfig config).perform s).2.editor.scopes.options.get? "words" =
      some (.strList []) := by decide +kernel
  exact ⟨by decide +kernel, hstored, by decide +kernel, by decide +kernel, by decide +kernel⟩

end Scene

end ModalEdit
