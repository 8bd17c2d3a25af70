import Mathlib.Tactic.FinCases
import ModalEdit.Parameters

/-!
# The roles of parameters

Every parameter of a list that a description accepts is a declared switch, the value of the switch
before it, the one `--` that ends the switches, or a positional. `Splits` gives the rules, and
`collect_eq_ok_iff` says that a list is accepted exactly if it splits by them. So nothing of a list
is lost, and a list written from switches, `--` and positionals is read back as these
(`parameters_are_split`).
-/

namespace ModalEdit

namespace Parameters

/-! ## Roles -/

/-- What a parameter is for. A switch comes with its value. -/
inductive Role where
  | switch (name : String) (value : Option String)
  | terminator
  | positional (text : String)
  deriving DecidableEq, Repr

namespace Role

/-- The parameters that a role takes up. -/
def written : Role → List String
  | switch name value => ("-" ++ name) :: value.toList
  | terminator => ["--"]
  | positional text => [text]

/-- The text of a positional. -/
def positional? : Role → Option String
  | positional text => some text
  | switch _ _ | terminator => none

/-- A given switch with its value. -/
def given? : Role → Option (String × Option String)
  | switch name value => some (name, value)
  | terminator | positional _ => none

/-- **`role.IsPositional`** — the parameter is a positional. -/
def IsPositional (role : Role) : Prop := role.positional?.isSome

end Role

/-- What is collected with one more role. -/
def take (p : Parameters) : Role → Parameters
  | .switch name value => p.addSwitch name value
  | .terminator => p
  | .positional text => p.addPositional text

end Parameters

open Parameters (Role)

/-! ## What a description declares and where -/

/-- **`IsSwitchName name`** — behind a dash the name is taken for that of a switch. -/
def IsSwitchName (name : String) : Prop := ∃ c ∈ name.toList.head?, c.isDigit = false

instance (name : String) : Decidable (IsSwitchName name) :=
  decidable_of_iff (name.toList.head?.any (!·.isDigit) = true)
    (by simp [IsSwitchName, Option.any_eq_true])

namespace ParameterDesc

/-- **`desc.WellNamed`** — the declared switches can be written: their names are not empty, do not
start with a digit, and behind a dash they are not `--`. -/
def WellNamed (desc : ParameterDesc) : Prop :=
  ∀ s ∈ desc.switches, IsSwitchName s.name ∧ s.name ≠ "-"

instance (desc : ParameterDesc) : Decidable desc.WellNamed :=
  inferInstanceAs (Decidable (∀ s ∈ desc.switches, IsSwitchName s.name ∧ s.name ≠ "-"))

/-- **`desc.Declares name value`** — the switch is declared, and it has a value if it takes one. -/
def Declares (desc : ParameterDesc) (name : String) (value : Option String) : Prop :=
  ∃ s, desc.switch? name = some s ∧ s.takesArg = value.isSome

theorem WellNamed.of_switch? {desc : ParameterDesc} {name : String} {s : SwitchDesc}
    (h : desc.WellNamed) (hs : desc.switch? name = some s) : IsSwitchName name ∧ name ≠ "-" := by
  have hname : s.name = name := by simpa using List.find?_some hs
  exact hname ▸ h s (List.mem_of_find?_eq_some hs)

/-- **`desc.Admits roles`** — behind these roles a switch can come: nothing has ended the switches,
and no flag makes a positional of it. -/
def Admits (desc : ParameterDesc) (roles : List Role) : Prop :=
  desc.switchesAsPositional = false ∧ .terminator ∉ roles ∧
    (desc.switchesOnlyAtStart = true → ∀ role ∈ roles, ¬ role.IsPositional)

variable {desc : ParameterDesc} {roles : List Role}

theorem admits_nil : desc.Admits [] ↔ (!desc.switchesAsPositional) = true := by
  simp [Admits]

theorem admits_concat_switch {name : String} {value : Option String} :
    desc.Admits (roles ++ [.switch name value]) ↔ desc.Admits roles := by
  simp [Admits, Role.IsPositional, Role.positional?, or_imp, forall_and]

theorem not_admits_concat_terminator : ¬ desc.Admits (roles ++ [.terminator]) := by
  simp [Admits]

theorem admits_concat_positional {text : String} :
    desc.Admits (roles ++ [.positional text]) ↔
      desc.Admits roles ∧ desc.switchesOnlyAtStart = false := by
  cases hstart : desc.switchesOnlyAtStart <;>
    simp [Admits, Role.IsPositional, Role.positional?, hstart]

theorem Admits.of_cons {role : Role} (h : desc.Admits (role :: roles)) : desc.Admits roles :=
  ⟨h.1, fun hmem => h.2.1 (List.mem_cons_of_mem _ hmem),
    fun hstart other hmem => h.2.2 hstart other (List.mem_cons_of_mem _ hmem)⟩

end ParameterDesc

namespace Parameters

/-! ## Splitting -/

/-- **`Splits desc allowed params roles`** — the parameters are split into these roles, where
switches can still come if `allowed`. -/
inductive Splits (desc : ParameterDesc) : Bool → List String → List Role → Prop
  | nil {allowed : Bool} : Splits desc allowed [] []
  | terminator {params : List String} {roles : List Role} (h : Splits desc false params roles) :
      Splits desc true ("--" :: params) (.terminator :: roles)
  | switch {param name : String} {value : Option String} {params : List String} {roles : List Role}
      (hparam : param ≠ "--") (hname : switchName? param = some name)
      (hdeclared : desc.Declares name value) (h : Splits desc true params roles) :
      Splits desc true (param :: (value.toList ++ params)) (.switch name value :: roles)
  | positional {allowed : Bool} {param : String} {params : List String} {roles : List Role}
      (hparam : allowed = true → param ≠ "--" ∧ switchName? param = none)
      (h : Splits desc (allowed && !desc.switchesOnlyAtStart) params roles) :
      Splits desc allowed (param :: params) (.positional param :: roles)

/-! ## How switches are written -/

theorem switchName?_eq_some_iff {param name : String} :
    switchName? param = some name ↔ IsSwitchName name ∧ param = "-" ++ name := by
  constructor
  · intro h
    unfold switchName? at h
    split at h
    next c rest hparam =>
      split at h
      next => cases h
      next hdigit =>
        obtain rfl := Option.some.inj h
        refine ⟨⟨c, by simp, by simpa using hdigit⟩, String.ext ?_⟩
        simpa using hparam
    next => cases h
  · rintro ⟨⟨c, hc, hdigit⟩, rfl⟩
    obtain ⟨rest, hname⟩ := List.head?_eq_some_iff.mp hc
    have hlist : ("-" ++ name).toList = '-' :: c :: rest := by simp [hname]
    rw [switchName?, hlist]
    simp only [hdigit]
    rw [← hname, String.ofList_toList]
    rfl

theorem switchName?_dash {name : String} (h : IsSwitchName name) :
    switchName? ("-" ++ name) = some name :=
  switchName?_eq_some_iff.mpr ⟨h, rfl⟩

theorem dash_append_eq_dashes_iff {name : String} : "-" ++ name = "--" ↔ name = "-" := by
  rw [← String.toList_inj, ← String.toList_inj]
  simp

/-! ## Accepted lists are split -/

section Collect

variable {desc : ParameterDesc} {allowed : Bool} {p q : Parameters} {params : List String}
  {roles : List Role}

theorem collect_terminator : collect desc true p ("--" :: params) = collect desc false p params := by
  rw [collect, if_pos ⟨rfl, rfl⟩]

theorem collect_switch {param name : String} {value : Option String} (hparam : param ≠ "--")
    (hname : switchName? param = some name) (hdeclared : desc.Declares name value) :
    collect desc true p (param :: (value.toList ++ params)) =
      collect desc true (p.addSwitch name value) params := by
  obtain ⟨⟨other, takesArg, description⟩, hs, htakes⟩ := hdeclared
  obtain rfl : takesArg = value.isSome := htakes
  rw [collect, if_neg fun h => hparam h.2, if_pos rfl, hname]
  cases value with
  | none => simp [hs]
  | some value => simp [hs]

theorem collect_positional {param : String}
    (hparam : allowed = true → param ≠ "--" ∧ switchName? param = none) :
    collect desc allowed p (param :: params) =
      collect desc (allowed && !desc.switchesOnlyAtStart) (p.addPositional param) params := by
  cases allowed with
  | false => rw [collect, if_neg (by simp), if_neg (by simp)]
  | true =>
    obtain ⟨hne, hname⟩ := hparam rfl
    rw [collect, if_neg fun h => hne h.2, if_pos rfl, hname]

/-- What is collected from parameters that are split is collected role by role. -/
theorem collect_of_splits (h : Splits desc allowed params roles) :
    collect desc allowed p params = .ok (roles.foldl take p) := by
  induction h generalizing p with
  | nil => rw [collect, List.foldl_nil]
  | terminator _ ih => rw [collect_terminator, ih, List.foldl_cons, take]
  | switch hparam hname hdeclared _ ih =>
    rw [collect_switch hparam hname hdeclared, ih, List.foldl_cons, take]
  | positional hparam _ ih => rw [collect_positional hparam, ih, List.foldl_cons, take]

/-- Parameters from which something is collected can be split. -/
theorem exists_splits_of_collect (h : collect desc allowed p params = .ok q) :
    ∃ roles, Splits desc allowed params roles := by
  fun_induction collect desc allowed p params with
  | case1 => exact ⟨[], .nil⟩
  | case2 allowed p param rest hend ih =>
    obtain ⟨rfl, rfl⟩ := hend
    obtain ⟨roles, hroles⟩ := ih h
    exact ⟨_, .terminator hroles⟩
  | case3 => cases h
  | case4 allowed p param hend name hname other description rest hs ih =>
    obtain ⟨hallowed, hname⟩ : allowed = true ∧ switchName? param = some name := by
      cases allowed <;> simp_all
    subst hallowed
    obtain ⟨roles, hroles⟩ := ih h
    have hdeclared : desc.Declares name none := ⟨_, hs, rfl⟩
    exact ⟨_, .switch (fun he => hend ⟨rfl, he⟩) hname hdeclared hroles⟩
  | case5 => cases h
  | case6 allowed p param hend name hname other description value rest hs ih =>
    obtain ⟨hallowed, hname⟩ : allowed = true ∧ switchName? param = some name := by
      cases allowed <;> simp_all
    subst hallowed
    obtain ⟨roles, hroles⟩ := ih h
    have hdeclared : desc.Declares name (some value) := ⟨_, hs, rfl⟩
    exact ⟨_, .switch (fun he => hend ⟨rfl, he⟩) hname hdeclared hroles⟩
  | case7 allowed p param rest hend hname ih =>
    obtain ⟨roles, hroles⟩ := ih h
    refine ⟨_, .positional (fun hallowed => ?_) hroles⟩
    subst hallowed
    exact ⟨fun he => hend ⟨rfl, he⟩, hname⟩

/-- **Accepted parameters are those that split** — and what is collected from them is collected
role by role. -/
theorem collect_eq_ok_iff :
    collect desc allowed p params = .ok q ↔
      ∃ roles, Splits desc allowed params roles ∧ q = roles.foldl take p := by
  constructor
  · intro h
    obtain ⟨roles, hroles⟩ := exists_splits_of_collect h
    rw [collect_of_splits hroles] at h
    exact ⟨roles, hroles, (Except.ok.inj h).symm⟩
  · rintro ⟨roles, hroles, rfl⟩
    exact collect_of_splits hroles

theorem parse_eq_ok_iff :
    parse desc params = .ok q ↔
      ∃ roles, Splits desc (!desc.switchesAsPositional) params roles ∧ q = roles.foldl take {} ∧
        desc.count.accepts q.positionals.length = true := by
  constructor
  · intro h
    unfold parse at h
    cases hp : collect desc (!desc.switchesAsPositional) {} params with
    | error e =>
      rw [hp] at h
      cases h
    | ok p =>
      obtain ⟨roles, hroles, rfl⟩ := collect_eq_ok_iff.mp hp
      rw [hp] at h
      simp only [Except.bind] at h
      split at h
      next hcount =>
        obtain rfl := Except.ok.inj h
        exact ⟨roles, hroles, rfl, hcount⟩
      next => cases h
  · rintro ⟨roles, hroles, rfl, hcount⟩
    rw [parse, collect_of_splits hroles]
    simp only [Except.bind]
    rw [if_pos hcount]

end Collect

/-! ## What a split says -/

/-- **`SplitInto desc params roles`** — the roles of a list of parameters: what a maintainer would
check of them, one by one. -/
structure SplitInto (desc : ParameterDesc) (params : List String) (roles : List Role) : Prop where
  /-- Nothing is lost, added or reordered. -/
  written : params = roles.flatMap Role.written
  /-- Switches are declared, and have a value if they take one. -/
  declared : ∀ name value, .switch name value ∈ roles → desc.Declares name value
  /-- The switches are ended once at most. -/
  terminator : roles.count .terminator ≤ 1
  behindTerminator : ∀ before after, roles = before ++ .terminator :: after →
    ∀ role ∈ after, role.IsPositional
  onlyAtStart : desc.switchesOnlyAtStart = true → ∀ before text after,
    roles = before ++ .positional text :: after → ∀ role ∈ after, role.IsPositional
  asPositional : desc.switchesAsPositional = true → ∀ role ∈ roles, role.IsPositional
  /-- Where a switch can come, no parameter that looks like one is a positional. -/
  positional : ∀ before text after, roles = before ++ .positional text :: after →
    desc.Admits before → text ≠ "--" ∧ switchName? text = none

section Split

variable {desc : ParameterDesc} {allowed : Bool} {params : List String} {roles : List Role}

theorem Splits.written (h : Splits desc allowed params roles) :
    params = roles.flatMap Role.written := by
  induction h with
  | nil => rfl
  | terminator _ ih => rw [List.flatMap_cons, ← ih]; rfl
  | switch _ hname _ _ ih =>
    rw [List.flatMap_cons, ← ih, (switchName?_eq_some_iff.mp hname).2]
    rfl
  | positional _ _ ih => rw [List.flatMap_cons, ← ih]; rfl

theorem Splits.declares (h : Splits desc allowed params roles) {name : String}
    {value : Option String} (hmem : .switch name value ∈ roles) : desc.Declares name value := by
  induction h with
  | nil => cases hmem
  | terminator _ ih => exact ih (by simpa using hmem)
  | switch _ _ hdeclared _ ih =>
    obtain heq | hmem := List.mem_cons.mp hmem
    · cases heq
      exact hdeclared
    · exact ih hmem
  | positional _ _ ih => exact ih (by simpa using hmem)

/-- A role that is no positional stands where switches can come, and a positional that stands there
does not look like a switch. -/
theorem Splits.placed (h : Splits desc allowed params roles) {earlier : List Role}
    (hearlier : allowed = true ↔ desc.Admits earlier) {before after : List Role} {role : Role}
    (hroles : roles = before ++ role :: after) :
    (¬ role.IsPositional → desc.Admits (earlier ++ before)) ∧
      ∀ text, role = .positional text → desc.Admits (earlier ++ before) →
        text ≠ "--" ∧ switchName? text = none := by
  induction h generalizing earlier before with
  | nil => simp at hroles
  | @terminator params roles _ ih =>
    cases before with
    | nil =>
      obtain ⟨rfl, -⟩ := List.cons.inj hroles
      rw [List.append_nil]
      exact ⟨fun _ => hearlier.mp rfl, nofun⟩
    | cons first before =>
      obtain ⟨rfl, hrest⟩ := List.cons.inj hroles
      have hnext : false = true ↔ desc.Admits (earlier ++ [.terminator]) := by
        simpa using ParameterDesc.not_admits_concat_terminator
      simpa using ih hnext hrest
  | @switch param name value params roles _ _ _ _ ih =>
    cases before with
    | nil =>
      obtain ⟨rfl, -⟩ := List.cons.inj hroles
      rw [List.append_nil]
      exact ⟨fun _ => hearlier.mp rfl, nofun⟩
    | cons first before =>
      obtain ⟨rfl, hrest⟩ := List.cons.inj hroles
      have hnext : true = true ↔ desc.Admits (earlier ++ [.switch name value]) := by
        rw [ParameterDesc.admits_concat_switch, hearlier]
      simpa using ih hnext hrest
  | @positional allowed param params roles hparam _ ih =>
    cases before with
    | nil =>
      obtain ⟨rfl, -⟩ := List.cons.inj hroles
      refine ⟨fun h => absurd rfl h, ?_⟩
      rintro _ ⟨⟩ hadmits
      exact hparam (hearlier.mpr (by simpa using hadmits))
    | cons first before =>
      obtain ⟨rfl, hrest⟩ := List.cons.inj hroles
      have hnext : (allowed && !desc.switchesOnlyAtStart) = true ↔
          desc.Admits (earlier ++ [.positional param]) := by
        rw [ParameterDesc.admits_concat_positional, ← hearlier]
        simp
      simpa using ih hnext hrest

theorem Splits.splitInto (h : Splits desc (!desc.switchesAsPositional) params roles) :
    SplitInto desc params roles := by
  have hplaced {before after : List Role} {role : Role} (hroles : roles = before ++ role :: after) :=
    h.placed ParameterDesc.admits_nil.symm hroles
  have hadmits {before after : List Role} {role : Role} (hroles : roles = before ++ role :: after)
      (hrole : ¬ role.IsPositional) : desc.Admits before := (hplaced hroles).1 hrole
  have hbehind (before after : List Role) (hroles : roles = before ++ .terminator :: after) :
      ∀ role ∈ after, role.IsPositional := by
    intro role hrole
    by_contra hswitch
    obtain ⟨x, y, rfl⟩ := List.append_of_mem hrole
    have hx : desc.Admits (before ++ .terminator :: x) := hadmits (by simpa using hroles) hswitch
    exact hx.2.1 (by simp)
  refine ⟨h.written, fun _ _ => h.declares, ?_, hbehind, ?_, ?_, ?_⟩
  · by_cases hmem : .terminator ∈ roles
    · obtain ⟨before, after, hroles⟩ := List.append_of_mem hmem
      have hbefore : .terminator ∉ before := (hadmits hroles nofun).2.1
      have hafter : .terminator ∉ after := fun h => nomatch hbehind before after hroles _ h
      rw [hroles, List.count_append, List.count_cons_self, List.count_eq_zero_of_not_mem hbefore,
        List.count_eq_zero_of_not_mem hafter]
    · rw [List.count_eq_zero_of_not_mem hmem]
      exact Nat.zero_le 1
  · intro hstart before text after hroles role hrole
    by_contra hswitch
    obtain ⟨x, y, rfl⟩ := List.append_of_mem hrole
    have hx : desc.Admits (before ++ .positional text :: x) :=
      hadmits (by simpa using hroles) hswitch
    exact hx.2.2 hstart (.positional text) (by simp) rfl
  · intro has role hrole
    by_contra hswitch
    obtain ⟨x, y, hroles⟩ := List.append_of_mem hrole
    exact Bool.false_ne_true ((hadmits hroles hswitch).1.symm.trans has)
  · intro before text after hroles
    exact (hplaced hroles).2 text rfl

end Split

/-! ## What is collected -/

section Take

variable (p : Parameters) (roles : List Role)

theorem positionals_foldl_take :
    (roles.foldl take p).positionals = p.positionals ++ roles.filterMap Role.positional? := by
  induction roles generalizing p with
  | nil => simp
  | cons role roles ih =>
    rw [List.foldl_cons, ih]
    cases role <;> simp [take, addSwitch, addPositional, Role.positional?, List.filterMap_cons]

theorem lookup_filter_key_ne (switches : List (String × Option String)) {name other : String}
    (h : other ≠ name) : (switches.filter (·.1 ≠ name)).lookup other = switches.lookup other := by
  induction switches with
  | nil => rfl
  | cons s switches ih =>
    by_cases hs : s.1 = name
    · rw [List.filter_cons_of_neg (by simpa using hs), ih, List.lookup_cons, hs,
        beq_false_of_ne h]
    · rw [List.filter_cons_of_pos (by simpa using hs), List.lookup_cons, List.lookup_cons, ih]

/-- A switch that is given again has its new value, and the others have theirs. -/
theorem lookup_addSwitch (name other : String) (value : Option String) :
    (p.addSwitch name value).switches.lookup other =
      if other = name then some value else p.switches.lookup other := by
  by_cases h : other = name
  · subst h
    have hnone : (p.switches.filter (·.1 ≠ other)).lookup other = none := by
      rw [List.lookup_eq_none_iff]
      intro s hs
      exact bne_iff_ne.mpr (Ne.symm (of_decide_eq_true (List.mem_filter.mp hs).2))
    rw [addSwitch, List.lookup_append, hnone, List.lookup_cons_self, if_pos rfl]
    rfl
  · rw [addSwitch, List.lookup_append, lookup_filter_key_ne _ h, List.lookup_cons,
      beq_false_of_ne h, if_neg h]
    exact Option.or_none

theorem nodup_addSwitch {p : Parameters} (h : (p.switches.map Prod.fst).Nodup) (name : String)
    (value : Option String) : ((p.addSwitch name value).switches.map Prod.fst).Nodup := by
  have hkept : ((p.switches.filter (·.1 ≠ name)).map Prod.fst).Nodup :=
    h.sublist (List.filter_sublist.map Prod.fst)
  rw [addSwitch, List.map_append]
  refine hkept.append (List.nodup_singleton name) ?_
  intro other hother hname
  obtain ⟨s, hs, rfl⟩ := List.mem_map.mp hother
  simpa [List.mem_singleton.mp hname] using (List.mem_filter.mp hs).2

/-- Each given switch is collected once, with the value that was given last. -/
theorem switches_foldl_take (h : (p.switches.map Prod.fst).Nodup) :
    ((roles.foldl take p).switches.map Prod.fst).Nodup ∧
      ∀ name, (roles.foldl take p).switches.lookup name =
        ((roles.filterMap Role.given?).reverse.lookup name).or (p.switches.lookup name) := by
  induction roles generalizing p with
  | nil => exact ⟨h, fun name => rfl⟩
  | cons role roles ih =>
    cases role with
    | switch name value =>
      obtain ⟨hnodup, hlookup⟩ := ih (p.addSwitch name value) (nodup_addSwitch h name value)
      refine ⟨hnodup, fun other => ?_⟩
      rw [List.foldl_cons, take, hlookup, lookup_addSwitch]
      simp only [List.filterMap_cons, Role.given?, List.reverse_cons, List.lookup_append,
        List.lookup_cons, List.lookup_nil, Option.or_assoc]
      by_cases hname : other = name
      · simp [hname]
      · simp [hname, beq_false_of_ne hname]
    | terminator => exact ih p h
    | positional text => exact ih (p.addPositional text) h

/-- Different switches are collected in the order in which they are given. -/
theorem foldl_take_given (given : List (String × Option String))
    (h : ((p.switches ++ given).map Prod.fst).Nodup) :
    (given.map fun g => Role.switch g.1 g.2).foldl take p =
      { p with switches := p.switches ++ given } := by
  induction given generalizing p with
  | nil => simp
  | cons g given ih =>
    have hfilter : p.switches.filter (·.1 ≠ g.1) = p.switches := by
      rw [List.filter_eq_self]
      intro s hs
      rw [List.map_append, List.nodup_append] at h
      simpa using h.2.2 s.1 (List.mem_map_of_mem hs) g.1 (by simp)
    have hadd : p.addSwitch g.1 g.2 = { p with switches := p.switches ++ [g] } := by
      rw [addSwitch, hfilter]
    rw [List.map_cons, List.foldl_cons, take, hadd, ih _ (by simpa using h)]
    simp

theorem foldl_take_positionals (positionals : List String) :
    (positionals.map Role.positional).foldl take p =
      { p with positionals := p.positionals ++ positionals } := by
  induction positionals generalizing p with
  | nil => simp
  | cons text positionals ih =>
    rw [List.map_cons, List.foldl_cons, ih]
    simp [take, addPositional]

end Take

/-! ## Written lists -/

section Written

variable {desc : ParameterDesc}

/-- Behind the terminator everything is positional. -/
theorem splits_positionals (positionals : List String) :
    Splits desc false positionals (positionals.map .positional) := by
  induction positionals with
  | nil => exact .nil
  | cons text positionals ih => exact .positional nofun ih

/-- Written switches are split into these switches, before any other parameters. -/
theorem splits_given (hnames : desc.WellNamed) {given : List (String × Option String)}
    (hgiven : ∀ g ∈ given, desc.Declares g.1 g.2) {params : List String} {roles : List Role}
    (h : Splits desc true params roles) :
    Splits desc true (given.flatMap (fun g => ("-" ++ g.1) :: g.2.toList) ++ params)
      (given.map (fun g => .switch g.1 g.2) ++ roles) := by
  induction given with
  | nil => exact h
  | cons g given ih =>
    have hdeclared := hgiven g List.mem_cons_self
    obtain ⟨hname, hne⟩ := hnames.of_switch? hdeclared.choose_spec.1
    have hrest := ih fun other hother => hgiven other (List.mem_cons_of_mem g hother)
    rw [List.flatMap_cons, List.cons_append, List.cons_append, List.append_assoc]
    exact .switch (mt dash_append_eq_dashes_iff.mp hne) (switchName?_dash hname) hdeclared hrest

end Written

/-- **Parameters are split without loss**. An accepted list is made of declared switches with their
values, one `--` at most and positionals, each where it may stand; the positionals are returned in
order, and are as many as the description allows; of a switch that is given twice the last value is
kept. And switches that are written with their values, then `--`, then positionals are read back as
these switches and these positionals. -/
theorem parameters_are_split (desc : ParameterDesc) :
    (∀ params p, parse desc params = .ok p →
      ∃ roles, SplitInto desc params roles ∧ p.positionals = roles.filterMap Role.positional? ∧
        desc.count.accepts p.positionals.length = true ∧ (p.switches.map Prod.fst).Nodup ∧
        ∀ name, p.switches.lookup name = (roles.filterMap Role.given?).reverse.lookup name) ∧
    (desc.WellNamed → desc.switchesAsPositional = false →
      ∀ (given : List (String × Option String)) (positionals : List String),
        (given.map Prod.fst).Nodup → (∀ g ∈ given, desc.Declares g.1 g.2) →
        desc.count.accepts positionals.length = true →
        parse desc (given.flatMap (fun g => ("-" ++ g.1) :: g.2.toList) ++ "--" :: positionals) =
          .ok ⟨given, positionals⟩) := by
  constructor
  · intro params p h
    obtain ⟨roles, hroles, rfl, hcount⟩ := parse_eq_ok_iff.mp h
    obtain ⟨hnodup, hlookup⟩ := switches_foldl_take {} roles List.nodup_nil
    refine ⟨roles, hroles.splitInto, positionals_foldl_take {} roles, hcount, hnodup, ?_⟩
    intro name
    rw [hlookup]
    exact Option.or_none
  · intro hnames hswitches given positionals hnodup hgiven hcount
    have hsplits := splits_given hnames hgiven (.terminator (splits_positionals positionals))
    have htake : (given.map (fun g => Role.switch g.1 g.2) ++
        Role.terminator :: positionals.map Role.positional).foldl take {} =
          ⟨given, positionals⟩ := by
      rw [List.foldl_append, foldl_take_given {} given hnodup, List.foldl_cons, take,
        foldl_take_positionals]
      rfl
    refine parse_eq_ok_iff.mpr ⟨_, ?_, htake.symm, hcount⟩
    rw [hswitches]
    exact hsplits

/-- A switch that is given twice, with values that look like a terminator and like a switch, before
positionals that do; and two switches, a terminator and positionals to be read back. -/
theorem parameters_are_split_of_lookalikes :
    let desc := ((ParameterDesc.bounded 1 (some 3)).withSwitch "id" true "").withSwitch "-x" false ""
    let params := ["-id", "--", "--x", "-id", "-7", "-", "--", "-id", "--"]
    let p : Parameters := ⟨[("-x", none), ("id", some "-7")], ["-", "-id", "--"]⟩
    (parse desc params = .ok p ∧
      ∃ roles, SplitInto desc params roles ∧ p.positionals = roles.filterMap Role.positional? ∧
        desc.count.accepts p.positionals.length = true ∧ (p.switches.map Prod.fst).Nodup ∧
        ∀ name, p.switches.lookup name = (roles.filterMap Role.given?).reverse.lookup name) ∧
    desc.WellNamed ∧ desc.switchesAsPositional = false ∧
      (p.switches.map Prod.fst).Nodup ∧ (∀ g ∈ p.switches, desc.Declares g.1 g.2) ∧
      desc.count.accepts p.positionals.length = true ∧
      parse desc ["--x", "-id", "-7", "--", "-", "-id", "--"] = .ok p := by
  intro desc params p
  have hparse : parse desc params = .ok p := rfl
  have hnames : desc.WellNamed := by
    intro s hs
    fin_cases hs
    · exact ⟨⟨'i', rfl, rfl⟩, by decide⟩
    · exact ⟨⟨'-', rfl, rfl⟩, by decide⟩
  have hgiven : ∀ g ∈ p.switches, desc.Declares g.1 g.2 := by
    intro g hg
    fin_cases hg
    · exact ⟨⟨"-x", false, ""⟩, by decide, rfl⟩
    · exact ⟨⟨"id", true, ""⟩, by decide, rfl⟩
  have hback := (parameters_are_split desc).2 hnames rfl p.switches p.positionals (by decide) hgiven
    (by decide)
  exact ⟨⟨hparse, (parameters_are_split desc).1 params p hparse⟩, hnames, rfl, by decide, hgiven,
    by decide, hback⟩

end Parameters

end ModalEdit
