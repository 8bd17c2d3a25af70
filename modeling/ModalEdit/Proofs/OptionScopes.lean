import ModalEdit.Proofs.CommandMoves
import ModalEdit.Proofs.OptionTexts

/-!
# Options in effect

An option can be set in several places. Seen from one of them, what is in effect is what the first
place holds on the way outward, and an assignment there starts from that value
(`base_eq_effective`). A context looks from its window outward, so what an assignment has written is
what the context sees exactly if the written place is the first on its way that holds the option
(`option?_assigned`); every other option, and every other look at this one, stays as it was.
-/

namespace ModalEdit

/-! ## Sums -/

/-- **`Total value addend sum`** — the sum of two integers, or of those that an option can hold the
nearest one to it; or a list with another one behind it. -/
inductive OptionValue.Total : OptionValue → OptionValue → OptionValue → Prop
  | int {a b n : Int} (hfits : IntegerFits n)
    (hnearest : ∀ m, IntegerFits m → (a + b - n).natAbs ≤ (a + b - m).natAbs) :
    Total (int a) (int b) (int n)
  | intList (a b : List Int) : Total (intList a) (intList b) (intList (a ++ b))
  | strList (a b : List String) : Total (strList a) (strList b) (strList (a ++ b))
  | lineFlagList (a b : List (Nat × String)) :
    Total (lineFlagList a) (lineFlagList b) (lineFlagList (a ++ b))

theorem OptionValue.total_of_add? {value addend sum : OptionValue}
    (h : value.add? addend = some sum) : Total value addend sum := by
  cases value <;> cases addend <;> cases h
  next a b =>
    refine .int (Writable.integerFits_addInt a b) fun m hm => ?_
    have hle : Text.integerMin ≤ Text.integerMax := by decide
    obtain ⟨hlow, hhigh⟩ := hm
    unfold addInt
    omega
  · exact .intList _ _
  · exact .strList _ _
  · exact .lineFlagList _ _

namespace Scene

variable {s t : Scene} {scope : Scope} {place : Site} {name other : String}
  {base value : OptionValue} {tables : ScopeTables}

/-! ## Places -/

/-- **`s.Has place`** — the place is there. -/
def Has (s : Scene) : Site → Prop
  | .editor => True
  | .document id => id < s.editor.store.length
  | .window => s.context.window.isSome = true

/-- The places that are looked through from a place, outward. -/
def outward (s : Scene) : Site → List Site
  | .editor => [.editor]
  | .document id => [.document id, .editor]
  | .window => [.window, .document s.context.document, .editor]

/-- The value of an option that is in effect at a place. -/
def effective? (s : Scene) (place : Site) (name : String) : Option OptionValue :=
  (s.outward place).findSome? fun site => (s.tablesAt site).options.get? name

/-- The place whose value of an option the context sees. -/
def holder? (s : Scene) (name : String) : Option Site :=
  (s.outward .window).find? fun site => (s.tablesAt site).options.contains name

theorem option?_eq_effective (s : Scene) (name : String) :
    s.option? name = s.effective? .window name := by
  unfold option? effective? visibleTables tablesAt
  cases s.context.window <;> rfl

/-- What is in effect at a place is what it holds, or else what its scope inherits. -/
theorem effective?_eq_or (hplace : s.site scope = .ok place) :
    s.effective? place name =
      ((s.tablesAt place).options.get? name).or (s.inheritedOption? scope name) := by
  have hnext : ∀ (first : Site) (rest : List Site) (look : Site → Option OptionValue),
      (first :: rest).findSome? look = (look first).or (rest.findSome? look) := by
    intro first rest look
    rw [List.findSome?_cons]
    cases look first <;> rfl
  cases scope with
  | «global» =>
    obtain rfl := Except.ok.inj hplace
    rw [effective?, outward, hnext]
    rfl
  | buffer =>
    obtain rfl := Except.ok.inj hplace
    rw [effective?, outward, hnext, hnext]
    exact congrArg _ (Option.or_none ..)
  | namedBuffer document =>
    obtain ⟨id, -, rfl⟩ := Act.map_eq_ok.mp hplace
    rw [effective?, outward, hnext, hnext]
    exact congrArg _ (Option.or_none ..)
  | window =>
    have hwindow : Site.window = place := by
      by_cases hsome : s.context.window.isSome = true
      · exact Except.ok.inj ((if_pos hsome).symm.trans hplace)
      · cases (if_neg hsome).symm.trans hplace
    subst hwindow
    rw [effective?, outward, hnext]
    rfl

/-- An assignment starts from the value that is in effect at its place. -/
theorem base_eq_effective (hplace : s.site scope = .ok place) :
    (s.tablesAt place).options.base name (s.inheritedOption? scope name) = .ok base ↔
      s.effective? place name = some base := by
  rw [OptionStore.base_eq_ok, effective?_eq_or hplace]

theorem tablesAt_setTablesAt (h : s.Has place) (tables : ScopeTables) (other : Site) :
    (s.setTablesAt place tables).tablesAt other =
      if other = place then tables else s.tablesAt other := by
  cases place with
  | editor => cases other <;> rfl
  | document id =>
    cases other with
    | editor | window => rfl
    | document other =>
      show ((s.editor.setDocument id _).document other).scopes = _
      rw [Editor.document_setDocument]
      by_cases heq : other = id
      · subst heq
        rw [if_pos ⟨rfl, h⟩, if_pos rfl]
      · rw [if_neg fun hboth => heq hboth.1, if_neg fun hsame => heq (Site.document.inj hsame)]
        rfl
  | window =>
    cases other with
    | editor | document => rfl
    | window =>
      obtain ⟨w, hw⟩ := Option.isSome_iff_exists.mp h
      simp [setTablesAt, tablesAt, hw]

theorem setTablesAt_of_not_has (h : ¬ s.Has place) (tables : ScopeTables) :
    s.setTablesAt place tables = s := by
  cases place with
  | editor => exact absurd trivial h
  | document id =>
    have hstore : s.editor.store.length ≤ id := Nat.le_of_not_lt h
    simp [setTablesAt, Editor.modifyDocument, Editor.setDocument, List.set_eq_of_length_le hstore]
  | window =>
    have hwindow : s.context.window = none := by simpa [Has] using h
    show Scene.mk s.editor { s.context with window := s.context.window.map _ } = s
    rw [hwindow, Option.map_none, ← hwindow]

/-! ## Looking from other contexts -/

/-- **`s.seenBy c shares`** — the editor with another context, whose window is that of the scene if
it shares it. -/
def seenBy (s : Scene) (c : Context) (shares : Bool) : Scene where
  editor := s.editor
  context := { c with window := if shares then s.context.window else c.window }

/-- The other context sees the same tables, but for those of a window that it does not share. -/
theorem tablesAt_seenBy_of_shares {c : Context} {shares : Bool} {site : Site}
    (h : site = .window → shares = true) : (s.seenBy c shares).tablesAt site = s.tablesAt site := by
  cases site with
  | editor | document => rfl
  | window =>
    obtain rfl := h rfl
    rfl

theorem tablesAt_seenBy (h : s.Has place) (tables : ScopeTables) (c : Context) (shares : Bool)
    (site : Site) : ((s.setTablesAt place tables).seenBy c shares).tablesAt site =
      if site = place ∧ (place = .window → shares = true) then tables
      else (s.seenBy c shares).tablesAt site := by
  by_cases hshares : site = .window → shares = true
  · rw [tablesAt_seenBy_of_shares hshares, tablesAt_seenBy_of_shares hshares,
      tablesAt_setTablesAt h]
    by_cases hsite : site = place
    · rw [if_pos hsite, if_pos ⟨hsite, hsite ▸ hshares⟩]
    · rw [if_neg hsite, if_neg fun hboth => hsite hboth.1]
  · -- the window of the other context is its own, whatever was written
    obtain ⟨rfl, hown⟩ := Classical.not_imp.mp hshares
    rw [if_neg fun hboth => hown (hboth.2 hboth.1.symm)]
    obtain rfl : shares = false := Bool.eq_false_iff.mpr hown
    rfl

/-- A place that holds an option is there. -/
theorem has_of_holder? {c : Context} {shares : Bool}
    (h : (s.seenBy c shares).holder? name = some place)
    (hshares : place = .window → shares = true) : s.Has place := by
  have hholds := List.find?_some h
  cases place with
  | editor => trivial
  | document id =>
    by_contra hnot
    have htables : (s.seenBy c shares).tablesAt (.document id) = (default : Document).scopes :=
      congrArg Document.scopes (Editor.document_of_le (Nat.le_of_not_lt hnot))
    rw [htables] at hholds
    cases hholds
  | window =>
    obtain rfl := hshares rfl
    by_contra hnot
    have hwindow : s.context.window = none := by simpa [Has] using hnot
    have htables : (s.seenBy c true).tablesAt .window = {} := by
      simp [tablesAt, seenBy, hwindow]
    rw [htables] at hholds
    cases hholds

/-- Looking for a value that was written at one of the places, if it can be seen there. -/
theorem findSome?_written {items : List Site} {look look' : Site → Option OptionValue}
    {place : Site} {seen : Prop} [Decidable seen] {value : OptionValue}
    (h : ∀ site, look' site = if site = place ∧ seen then some value else look site) :
    items.findSome? look' =
      if items.find? (fun site => (look' site).isSome) = some place ∧ seen then some value
      else items.findSome? look := by
  induction items with
  | nil => rfl
  | cons site items ih =>
    rw [List.findSome?_cons, List.find?_cons, List.findSome?_cons]
    by_cases hwritten : site = place ∧ seen
    · have hlook : look' site = some value := (h site).trans (if_pos hwritten)
      rw [hlook]
      exact (if_pos ⟨congrArg some hwritten.1, hwritten.2⟩).symm
    · have hlook : look' site = look site := (h site).trans (if_neg hwritten)
      rw [hlook]
      cases hheld : look site with
      | none => exact ih
      | some found =>
        have hnot : ¬(some site = some place ∧ seen) := fun hboth =>
          hwritten ⟨Option.some.inj hboth.1, hboth.2⟩
        exact (if_neg hnot).symm

/-- The scene with an option set at a place. -/
def assigned (s : Scene) (place : Site) (name : String) (value : OptionValue) : Scene :=
  s.setTablesAt place
    { s.tablesAt place with options := (s.tablesAt place).options.set name value }

/-- **What contexts see** — an option that was set is seen in every context for which the written
place is the first that holds it, and nothing else is seen otherwise than before. -/
theorem option?_assigned (s : Scene) (place : Site) (name : String) (value : OptionValue)
    (c : Context) (shares : Bool) (other : String) :
    ((s.assigned place name value).seenBy c shares).option? other =
      if other = name ∧ (place = .window → shares = true) ∧
        ((s.assigned place name value).seenBy c shares).holder? name = some place
      then some value else (s.seenBy c shares).option? other := by
  by_cases hplace : s.Has place
  · -- place by place: the value is found where it was written, if that is seen, and nothing else moves
    have hlook : ∀ site,
        (((s.assigned place name value).seenBy c shares).tablesAt site).options.get? other =
          if site = place ∧ (place = .window → shares = true) ∧ other = name then some value
          else ((s.seenBy c shares).tablesAt site).options.get? other := by
      intro site
      rw [assigned, tablesAt_seenBy hplace]
      by_cases hseen : site = place ∧ (place = .window → shares = true)
      · obtain ⟨rfl, hshares⟩ := hseen
        rw [if_pos ⟨rfl, hshares⟩, tablesAt_seenBy_of_shares hshares]
        refine OptionStore.get?_set.trans ?_
        by_cases hname : other = name
        · rw [if_pos hname, if_pos ⟨rfl, hshares, hname⟩]
        · rw [if_neg hname, if_neg fun h => hname h.2.2]
      · rw [if_neg hseen, if_neg fun h => hseen ⟨h.1, h.2.1⟩]
    rw [option?_eq_effective, option?_eq_effective]
    refine (findSome?_written hlook).trans ?_
    by_cases hname : other = name
    · subst hname
      simp only [true_and, holder?, OptionStore.contains_eq, and_comm]
      rfl
    · rw [if_neg fun h => hname h.2.2, if_neg fun h => hname h.1]
      rfl
  · -- nothing was written, and a place that is not there holds nothing
    have hunchanged : s.assigned place name value = s := setTablesAt_of_not_has hplace _
    rw [hunchanged, if_neg fun h => hplace (has_of_holder? h.2.2 h.2.1)]

/-! ## Hooks on options -/

theorem hooksFor_eq (s : Scene) (event param : String) :
    s.hooksFor event param = [Site.editor, .document s.context.document, .window].flatMap
      fun site => (s.tablesAt site).hooks.matching event param := by
  unfold hooksFor visibleTables tablesAt
  cases s.context.window <;> rfl

/-- To set an option changes no hooks. -/
theorem hooksFor_assigned (s : Scene) (place : Site) (name : String) (value : OptionValue)
    (event param : String) :
    (s.assigned place name value).hooksFor event param = s.hooksFor event param := by
  by_cases hplace : s.Has place
  · have hdocument : (s.assigned place name value).context.document = s.context.document := by
      cases place <;> rfl
    rw [hooksFor_eq, hooksFor_eq, hdocument]
    refine List.flatMap_congr fun site _ => ?_
    rw [assigned, tablesAt_setTablesAt hplace]
    split
    next heq => rw [heq]
    next => rfl
  · have hunchanged : s.assigned place name value = s := setTablesAt_of_not_has hplace _
    rw [hunchanged]

theorem runHook_of_none {run : Runner} {event param : String} (h : s.hooksFor event param = []) :
    (runHook run event param).perform s = (.ok (), s) := by
  rw [runHook, Act.perform_bind_ok (Act.perform_get s), h]
  rfl

/-! ## The command -/

section Command

variable {p : Parameters} {scopeText text : String}

theorem positional_cases (s : Scene) (p : Parameters) (index : Nat) :
    (∃ error, (positional p index).perform s = (.error error, s)) ∨
      ∃ text, p.positional? index = some text ∧ (positional p index).perform s = (.ok text, s) := by
  unfold positional
  cases p.positional? index with
  | none => exact .inl ⟨_, rfl⟩
  | some text => exact .inr ⟨text, rfl, rfl⟩

theorem scopeAt_cases (s : Scene) (p : Parameters) (index : Nat) :
    (∃ error, (scopeAt p index).perform s = (.error error, s)) ∨
      ∃ text scope, p.positional? index = some text ∧ Scope.parse text = .ok scope ∧
        (scopeAt p index).perform s = (.ok scope, s) := by
  unfold scopeAt
  rcases positional_cases s p index with ⟨error, hfailed⟩ | ⟨text, htext, hread⟩
  · exact .inl ⟨error, by rw [Act.perform_bind, hfailed]⟩
  · rw [Act.perform_bind_ok hread, perform_ofRegistry]
    cases hscope : Scope.parse text with
    | error error => exact .inl ⟨.registry error, rfl⟩
    | ok scope => exact .inr ⟨text, scope, htext, hscope, rfl⟩

/-- **`set`** — nothing changes, or the option is set at the place of the scope, and hooks run. -/
theorem setOption_cases (run : Runner) (p : Parameters) (s : Scene) :
    (∃ error, (setOption run p).perform s = (.error error, s)) ∨
      ∃ scopeText scope name text place base value,
        (p.positional? 0 = some scopeText ∧ p.positional? 1 = some name ∧
          p.positional? 2 = some text) ∧
        Scope.parse scopeText = .ok scope ∧ s.site scope = .ok place ∧
        s.effective? place name = some base ∧ base.Becomes (p.hasSwitch "add") text value ∧
        (setOption run p).perform s =
          (runHook run (optionEvent scope) s!"{name}={value.text}").perform
            (s.assigned place name value) := by
  unfold setOption
  rcases scopeAt_cases s p 0 with ⟨error, h⟩ | ⟨scopeText, scope, hscopeText, hscope, h⟩
  · exact .inl ⟨error, by rw [Act.perform_bind, h]⟩
  rw [Act.perform_bind_ok h]
  rcases positional_cases s p 1 with ⟨error, h⟩ | ⟨name, hname, h⟩
  · exact .inl ⟨error, by rw [Act.perform_bind, h]⟩
  rw [Act.perform_bind_ok h]
  rcases positional_cases s p 2 with ⟨error, h⟩ | ⟨text, htext, h⟩
  · exact .inl ⟨error, by rw [Act.perform_bind, h]⟩
  rw [Act.perform_bind_ok h, Act.perform_bind_ok (Act.perform_get s), Act.perform_bind,
    perform_updateTables]
  cases hplace : s.site scope with
  | error error => exact .inl ⟨error, rfl⟩
  | ok place =>
    dsimp only
    cases hassigned : (if p.hasSwitch "add" then
        (s.tablesAt place).options.addText name text (s.inheritedOption? scope name)
      else (s.tablesAt place).options.setText name text (s.inheritedOption? scope name)) with
    | error error => exact .inl ⟨.registry error, rfl⟩
    | ok found =>
      obtain ⟨value, options⟩ := found
      obtain ⟨base, hbase, hvalue, rfl⟩ := (OptionStore.assigned_eq_ok _).mp hassigned
      exact .inr ⟨scopeText, scope, name, text, place, base, value, ⟨hscopeText, hname, htext⟩,
        hscope, hplace, (base_eq_effective hplace).mp hbase, hvalue, rfl⟩

/-- **Setting an option affects one scope** — `set` writes at the place that the scope names in the
context. It starts from the value in effect there and writes the value that the text is read as, or
with `-add` the sum of both. If no hook runs on that, every context, on whatever document and with
or without a window, sees in every option what it saw before, but for that option if the written
place is the first that holds it on the way from the context's window outward: then it sees the
value. The contexts of clients stay as they are. -/
theorem set_affects_one_scope (run : Runner) {s t : Scene}
    (hp : p.positionals = [scopeText, name, text]) (hscope : Scope.parse scopeText = .ok scope)
    (hset : (setOption run p).perform s = (.ok (), t)) :
    ∃ place base given value, s.site scope = .ok place ∧ s.effective? place name = some base ∧
      OptionValue.parse name base.type text = .ok given ∧
      (if p.hasSwitch "add" then base.Total given value else value = given) ∧
      (s.hooksFor (optionEvent scope) s!"{name}={value.text}" = [] →
        t.editor.clients = s.editor.clients ∧
          ∀ (c : Context) (shares : Bool) (other : String),
            (t.seenBy c shares).option? other =
              if other = name ∧ (place = .window → shares = true) ∧
                (t.seenBy c shares).holder? name = some place
              then some value else (s.seenBy c shares).option? other) := by
  rcases setOption_cases run p s with ⟨error, hfailed⟩ |
    ⟨_, _, _, _, place, base, value, hpositionals, hscope', hplace, hbase, hbecomes, hran⟩
  · rw [hfailed] at hset
    cases hset
  · -- the positionals are those that are given
    unfold Parameters.positional? at hpositionals
    rw [hp] at hpositionals
    obtain ⟨rfl, rfl, rfl⟩ : scopeText = _ ∧ name = _ ∧ text = _ :=
      hpositionals.imp Option.some.inj (And.imp Option.some.inj Option.some.inj)
    obtain rfl := Except.ok.inj (hscope.symm.trans hscope')
    obtain ⟨given, hread, hvalue⟩ := hbecomes
    refine ⟨place, base, given, value, hplace, hbase, OptionValue.parse_eq_ok.mpr hread, ?_, ?_⟩
    · cases hadd : p.hasSwitch "add" with
      | true =>
        rw [hadd] at hvalue
        exact OptionValue.total_of_add? hvalue
      | false =>
        rw [hadd] at hvalue
        exact hvalue
    · -- hooks are looked up after the option is set, and that changes none
      intro hhooks
      rw [hran, runHook_of_none ((hooksFor_assigned s place name value _ _).trans hhooks)] at hset
      obtain rfl := (Prod.mk.inj hset).2
      exact ⟨clients_setTablesAt s place _, option?_assigned s place name value⟩

/-- A list that a document gets from outside and adds to, and that a window hides. -/
theorem set_affects_one_scope_hidden :
    let holding (items : List String) : ScopeTables :=
      { options := ⟨[("paths", { value := .strList items })]⟩ }
    let s : Scene :=
      ⟨{ scopes := holding ["a"], store := [.ofText "notes" "x\n", .ofText "other" "y\n"] },
        { name := "main", document := 0, tracker := 0, window := some { scopes := holding ["w"] } }⟩
    let p : Parameters := { switches := [("add", none)], positionals := ["buffer", "paths", "b:c"] }
    let done := (setOption (fun _ _ => pure ()) p).perform s
    let seen (document : Nat) (shares : Bool) : Option OptionValue :=
      (done.2.seenBy { name := "second", document, tracker := 0 } shares).option? "paths"
    done.1 = .ok () ∧
      (seen 0 true = some (.strList ["w"]) ∧ seen 0 false = some (.strList ["a", "b", "c"]) ∧
        seen 1 false = some (.strList ["a"])) ∧
      ∃ place base given value, s.site .buffer = .ok place ∧
        s.effective? place "paths" = some base ∧
        OptionValue.parse "paths" base.type "b:c" = .ok given ∧
        (if p.hasSwitch "add" then base.Total given value else value = given) ∧
        (s.hooksFor "BufSetOption" s!"paths={value.text}" = [] →
          done.2.editor.clients = s.editor.clients ∧
            ∀ (c : Context) (shares : Bool) (other : String),
              (done.2.seenBy c shares).option? other =
                if other = "paths" ∧ (place = .window → shares = true) ∧
                  (done.2.seenBy c shares).holder? "paths" = some place
                then some value else (s.seenBy c shares).option? other) := by
  intro holding s p done seen
  have hdone : done.1 = .ok () := rfl
  exact ⟨hdone, ⟨rfl, rfl, rfl⟩, set_affects_one_scope _ rfl rfl (Prod.ext hdone rfl)⟩

/-- The sum of two integers is not always a value: an option that holds the largest one keeps it. -/
theorem set_add_stops_at_largest :
    let s : Scene := ⟨{ Editor.new {} with
        scopes := { options := ⟨[("tabstop", { value := .int 9223372036854775807 })]⟩ } },
      { name := "main", document := 0, tracker := 0 }⟩
    let p : Parameters := { switches := [("add", none)], positionals := ["global", "tabstop", "1"] }
    let done := (setOption (fun _ _ => pure ()) p).perform s
    done.1 = .ok () ∧ s.hooksFor "GlobalSetOption" "tabstop=9223372036854775807" = [] ∧
      s.effective? .editor "tabstop" = some (.int 9223372036854775807) ∧
      OptionValue.parse "tabstop" .int "1" = .ok (.int 1) ∧
      done.2.holder? "tabstop" = some .editor ∧
      done.2.option? "tabstop" ≠ some (.int (9223372036854775807 + 1)) := by
  intro s p done
  have hlargest : done.2.option? "tabstop" = some (.int 9223372036854775807) := rfl
  refine ⟨rfl, rfl, rfl, rfl, rfl, ?_⟩
  rw [hlargest]
  decide

end Command

end Scene

end ModalEdit
