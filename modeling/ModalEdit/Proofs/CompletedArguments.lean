import ModalEdit.Proofs.CompletedWords
import ModalEdit.Proofs.ParameterRoles

/-!
# Which argument is completed

Completion walks over the arguments before the cursor to find out what the next one is. It knows
less than the parser: neither the flags of a description nor that a dash alone, or before a digit,
starts a positional. `Undisguised` says that no argument makes a difference, and then completion
and parser agree on every argument (`completion_agrees_with_parsing`); otherwise the completer is
not given the positionals of the parser.
-/

namespace ModalEdit

open Text (byteLength)

/-- **`Dashed text`** — the text starts with a dash. -/
def Dashed (text : String) : Prop := text.toList.head? = some '-'

instance (text : String) : Decidable (Dashed text) :=
  inferInstanceAs (Decidable (text.toList.head? = some '-'))

/-! ## Splitting a part of the parameters -/

namespace Parameters

/-- **`Undisguised roles`** — no positional starts with a dash, unless a terminator comes before
it. -/
def Undisguised : List Role → Prop
  | [] | .terminator :: _ => True
  | .switch _ _ :: roles => Undisguised roles
  | .positional text :: roles => ¬ Dashed text ∧ Undisguised roles

section Parts

variable {desc : ParameterDesc} {allowed : Bool} {params words : List String}
  {roles more : List Role} {word name : String}

/-- A positional that starts with a dash is undisguised only behind a terminator. -/
theorem undisguised_concat_iff : Undisguised (roles ++ [.positional word]) ↔
    Undisguised roles ∧ (Dashed word → .terminator ∈ roles) := by
  induction roles with
  | nil => simp [Undisguised]
  | cons role roles ih =>
    cases role with
    | switch name value => simpa [Undisguised] using ih
    | terminator => simp [Undisguised]
    | positional text => simp [Undisguised, ih, and_assoc]

/-- Roles at the front are those of the parameters at the front. -/
theorem Splits.of_append (h : Splits desc allowed params (roles ++ more)) :
    Splits desc allowed (roles.flatMap Role.written) roles := by
  induction roles generalizing allowed params with
  | nil => exact .nil
  | cons role roles ih =>
    cases h with
    | terminator h => exact .terminator (ih h)
    | switch hparam hname hdeclared h =>
      rw [(switchName?_eq_some_iff.mp hname).2] at hparam hname
      exact .switch hparam hname hdeclared (ih h)
    | positional hparam h => exact .positional hparam (ih h)

theorem Splits.of_concat_positional
    (h : Splits desc allowed (words ++ [word]) (roles ++ [.positional word])) :
    Splits desc allowed words roles := by
  have hwords : words = roles.flatMap Role.written := by
    simpa [Role.written] using h.written
  rw [hwords]
  exact h.of_append

/-- A word that is the value of a switch comes right behind that switch. -/
theorem Splits.of_concat_value
    (h : Splits desc allowed (words ++ [word]) (roles ++ [.switch name (some word)])) :
    words = roles.flatMap Role.written ++ ["-" ++ name] := by
  have hwords : words ++ [word] = roles.flatMap Role.written ++ ["-" ++ name] ++ [word] := by
    simpa [Role.written] using h.written
  exact List.append_cancel_right hwords

/-- Behind the switches every parameter is a positional. -/
theorem Splits.eq_positionals (h : Splits desc false params roles) :
    roles.filterMap Role.positional? = params := by
  generalize hallowed : false = allowed at h
  induction h with
  | nil => rfl
  | terminator | switch => cases hallowed
  | @positional _ param _ roles _ _ ih =>
    subst hallowed
    have hfirst : (Role.positional param :: roles).filterMap Role.positional? =
        param :: roles.filterMap Role.positional? := rfl
    rw [hfirst, ih rfl]

theorem Splits.switch_name (h : Splits desc allowed params roles) {value : Option String}
    (hmem : .switch name value ∈ roles) : IsSwitchName name ∧ name ≠ "-" := by
  induction h with
  | nil => cases hmem
  | terminator _ ih => exact ih (by simpa using hmem)
  | switch hparam hname _ _ ih =>
    obtain heq | hmem := List.mem_cons.mp hmem
    · cases heq
      obtain ⟨hswitch, rfl⟩ := switchName?_eq_some_iff.mp hname
      exact ⟨hswitch, mt dash_append_eq_dashes_iff.mpr hparam⟩
    · exact ih hmem
  | positional _ _ ih => exact ih (by simpa using hmem)

end Parts

end Parameters

/-! ## The walk over the arguments -/

namespace Completions

open Parameters

variable {desc : ParameterDesc} {positionals : List String} {word name : String}

theorem switchText?_dash (name : String) : switchText? ("-" ++ name) = some name := by
  simp [switchText?]

theorem switchText?_eq_none (h : ¬ Dashed word) : switchText? word = none := by
  unfold switchText?
  split
  next name hword => exact absurd (by rw [Dashed, hword]; rfl) h
  next => rfl

theorem isSome_switchText?_iff : (switchText? word).isSome ↔ Dashed word := by
  unfold switchText? Dashed
  cases word.toList with
  | nil => simp
  | cons c rest =>
    by_cases hc : c = '-' <;> simp [hc]

theorem exists_eq_dash_append (h : Dashed word) : ∃ name, word = "-" ++ name := by
  obtain ⟨rest, hrest⟩ := List.head?_eq_some_iff.mp h
  exact ⟨String.ofList rest, String.ext (by simp [hrest])⟩

namespace ArgumentState

theorem step_done : step desc ⟨positionals, none, true⟩ word = ⟨positionals ++ [word], none, true⟩ :=
  rfl

theorem step_terminator :
    step desc ⟨positionals, none, false⟩ "--" = ⟨positionals, none, true⟩ := rfl

theorem step_switch (hname : name ≠ "-") :
    step desc ⟨positionals, none, false⟩ ("-" ++ name) =
      ⟨positionals, ((desc.switch? name).filter (·.takesArg)).map fun _ => name, false⟩ := by
  have hword : "-" ++ name ≠ "--" := mt dash_append_eq_dashes_iff.mp hname
  rw [step, if_neg (by simp), if_neg (by simp [hword]), if_neg (by simp), switchText?_dash]

/-- A switch is passed over together with its value. -/
theorem foldl_step_switch {value : Option String} (hname : name ≠ "-")
    (hdeclared : desc.Declares name value) :
    (("-" ++ name) :: value.toList).foldl (step desc) ⟨positionals, none, false⟩ =
      ⟨positionals, none, false⟩ := by
  obtain ⟨⟨other, takesArg, description⟩, hs, htakes⟩ := hdeclared
  obtain rfl : takesArg = value.isSome := htakes
  rw [List.foldl_cons, step_switch hname, hs]
  cases value with
  | none => rfl
  | some value => rfl

theorem step_plain (hword : ¬ Dashed word) (done : Bool) :
    step desc ⟨positionals, none, done⟩ word = ⟨positionals ++ [word], none, done⟩ := by
  have hne : word ≠ "--" := by
    rintro rfl
    exact hword (by decide)
  rw [step, if_neg (by simp), if_neg (by simp [hne]), switchText?_eq_none hword, ite_self]

/-- A positional that starts with a dash is passed over. -/
theorem positionals_step_dashed (hword : Dashed word) :
    (step desc ⟨positionals, none, false⟩ word).positionals = positionals := by
  obtain ⟨name, rfl⟩ := exists_eq_dash_append hword
  by_cases hname : name = "-"
  · subst hname
    rfl
  · rw [step_switch hname]

/-- A dash alone, or before a digit, is passed over without a trace. -/
theorem step_misread (hnames : desc.WellNamed) (hword : Dashed word) (hne : word ≠ "--")
    (hswitch : switchName? word = none) :
    step desc ⟨positionals, none, false⟩ word = ⟨positionals, none, false⟩ := by
  obtain ⟨name, rfl⟩ := exists_eq_dash_append hword
  have hundeclared : desc.switch? name = none := by
    cases hs : desc.switch? name with
    | none => rfl
    | some s =>
      have hname := switchName?_dash (hnames.of_switch? hs).1
      exact absurd (hswitch.symm.trans hname) nofun
  rw [step_switch (mt dash_append_eq_dashes_iff.mpr hne), hundeclared]
  rfl

/-- Behind a terminator every argument is a positional. -/
theorem foldl_step_done (words : List String) :
    words.foldl (step desc) ⟨positionals, none, true⟩ = ⟨positionals ++ words, none, true⟩ := by
  induction words generalizing positionals with
  | nil => simp
  | cons word words ih =>
    rw [List.foldl_cons, step_done, ih]
    simp

/-- The walk takes undisguised roles for what they are. -/
theorem foldl_step_of_splits {allowed : Bool} {words : List String} {roles : List Role}
    (h : Splits desc allowed words roles) (hroles : Undisguised roles) :
    words.foldl (step desc) ⟨positionals, none, false⟩ =
      ⟨positionals ++ roles.filterMap Role.positional?, none, decide (.terminator ∈ roles)⟩ := by
  induction h generalizing positionals with
  | nil => simp
  | @terminator params roles h _ =>
    rw [List.foldl_cons, step_terminator, foldl_step_done]
    simp [Role.positional?, List.filterMap_cons, h.eq_positionals]
  | @switch param name value params roles hparam hname hdeclared _ ih =>
    obtain ⟨-, rfl⟩ := switchName?_eq_some_iff.mp hname
    have hne : name ≠ "-" := mt dash_append_eq_dashes_iff.mpr hparam
    rw [← List.cons_append, List.foldl_append, foldl_step_switch hne hdeclared, ih hroles]
    simp [Role.positional?, List.filterMap_cons]
  | @positional allowed param params roles _ _ ih =>
    rw [List.foldl_cons, step_plain hroles.1, ih hroles.2]
    simp [Role.positional?]

/-- **The walk agrees with the parser** on arguments that split into undisguised roles. -/
theorem foldl_step_of_undisguised {allowed : Bool} {words : List String} {roles : List Role}
    (h : Splits desc allowed words roles) (hroles : Undisguised roles) :
    words.foldl (step desc) {} =
      ⟨roles.filterMap Role.positional?, none, decide (.terminator ∈ roles)⟩ :=
  foldl_step_of_splits h hroles

/-- Where the parser admits a switch the walk expects one, whatever it has made of positionals. -/
theorem foldl_step_of_admits {words : List String} {roles : List Role} (hnames : desc.WellNamed)
    (h : Splits desc true words roles) (hadmits : desc.Admits roles) :
    ∃ found, words.foldl (step desc) ⟨positionals, none, false⟩ = ⟨found, none, false⟩ := by
  generalize hallowed : true = allowed at h
  induction h generalizing positionals with
  | nil => exact ⟨positionals, rfl⟩
  | terminator => exact absurd List.mem_cons_self hadmits.2.1
  | @switch param name value params roles hparam hname hdeclared _ ih =>
    obtain ⟨-, rfl⟩ := switchName?_eq_some_iff.mp hname
    have hne : name ≠ "-" := mt dash_append_eq_dashes_iff.mpr hparam
    rw [← List.cons_append, List.foldl_append, foldl_step_switch hne hdeclared]
    exact ih hadmits.of_cons rfl
  | @positional allowed param params roles hparam _ ih =>
    subst hallowed
    have hanywhere : desc.switchesOnlyAtStart = false := by
      by_contra hstart
      exact hadmits.2.2 (by simpa using hstart) _ List.mem_cons_self rfl
    have hstep : ∃ found, step desc ⟨positionals, none, false⟩ param = ⟨found, none, false⟩ := by
      by_cases hdash : Dashed param
      · obtain ⟨hne, hswitch⟩ := hparam rfl
        exact ⟨_, step_misread hnames hdash hne hswitch⟩
      · exact ⟨_, step_plain hdash false⟩
    obtain ⟨found, hfound⟩ := hstep
    rw [List.foldl_cons, hfound]
    exact ih hadmits.of_cons (by simp [hanywhere])

/-- Behind a switch whose value comes next the walk expects that value. -/
theorem valued_foldl_step {words : List String} {roles : List Role} (hnames : desc.WellNamed)
    (h : Splits desc (!desc.switchesAsPositional) (words ++ [word])
      (roles ++ [.switch name (some word)])) :
    (words.foldl (step desc) {}).valued = some name := by
  have hmem : Role.switch name (some word) ∈ roles ++ [.switch name (some word)] := by simp
  have hadmits : desc.Admits roles := (h.placed ParameterDesc.admits_nil.symm rfl).1 nofun
  obtain ⟨-, hne⟩ := h.switch_name hmem
  obtain ⟨s, hs, htakes⟩ := h.declares hmem
  have hroles := h.of_append
  rw [hadmits.1] at hroles
  obtain ⟨found, hfound⟩ := foldl_step_of_admits hnames hroles hadmits
  rw [h.of_concat_value, List.foldl_append, hfound, List.foldl_cons, List.foldl_nil,
    step_switch hne]
  simp [hs, htakes]

/-! ## Disguised positionals -/

/-- One more argument is one more positional at most. -/
theorem length_positionals_foldl_step_le (st : ArgumentState) (words : List String) :
    (words.foldl (step desc) st).positionals.length ≤ st.positionals.length + words.length := by
  induction words generalizing st with
  | nil => exact le_rfl
  | cons word words ih =>
    have hstep : (st.step desc word).positionals.length ≤ st.positionals.length + 1 := by
      unfold step
      split_ifs
      · simp
      · simp
      · simp
      · split
        · simp
        · simp
    have hrest := ih (st.step desc word)
    rw [List.foldl_cons, List.length_cons]
    omega

/-- The walk never finds more positionals than the parser, and fewer if one is disguised. -/
theorem length_positionals_foldl_step {allowed : Bool} {words : List String} {roles : List Role}
    (hnames : desc.WellNamed) (h : Splits desc allowed words roles) :
    (words.foldl (step desc) ⟨positionals, none, false⟩).positionals.length ≤
        positionals.length + (roles.filterMap Role.positional?).length ∧
      (¬ Undisguised roles →
        (words.foldl (step desc) ⟨positionals, none, false⟩).positionals.length <
          positionals.length + (roles.filterMap Role.positional?).length) := by
  induction h generalizing positionals with
  | nil => exact ⟨by simp, fun h => absurd trivial h⟩
  | @terminator params roles h _ =>
    refine ⟨?_, fun h => absurd trivial h⟩
    rw [foldl_step_of_splits (.terminator h) trivial, List.length_append]
  | @switch param name value params roles hparam hname hdeclared _ ih =>
    obtain ⟨-, rfl⟩ := switchName?_eq_some_iff.mp hname
    have hne : name ≠ "-" := mt dash_append_eq_dashes_iff.mpr hparam
    rw [← List.cons_append, List.foldl_append, foldl_step_switch hne hdeclared]
    exact ih
  | @positional allowed param params roles hparam h ih =>
    have hcount : ((Role.positional param :: roles).filterMap Role.positional?).length =
        (roles.filterMap Role.positional?).length + 1 := rfl
    rw [List.foldl_cons, hcount]
    by_cases hdash : Dashed param
    · suffices hless : (params.foldl (step desc)
          (step desc ⟨positionals, none, false⟩ param)).positionals.length <
            positionals.length + ((roles.filterMap Role.positional?).length + 1) from
        ⟨hless.le, fun _ => hless⟩
      cases allowed with
      | true =>
        obtain ⟨hne, hswitch⟩ := hparam rfl
        rw [step_misread hnames hdash hne hswitch]
        have hrest := (@ih positionals).1
        omega
      | false =>
        -- from here on the parser takes every argument as a positional
        have hrest : (params.foldl (step desc)
            (step desc ⟨positionals, none, false⟩ param)).positionals.length ≤ _ :=
          length_positionals_foldl_step_le _ params
        rw [positionals_step_dashed hdash] at hrest
        rw [Splits.eq_positionals h]
        omega
    · rw [step_plain hdash]
      obtain ⟨hle, hless⟩ := @ih (positionals ++ [param])
      rw [List.length_append, List.length_singleton] at hle hless
      refine ⟨by omega, fun hdisguised => ?_⟩
      have := hless fun hroles => hdisguised ⟨hdash, hroles⟩
      omega

/-- The walk misses positionals if one is disguised. -/
theorem positionals_foldl_step_ne {allowed : Bool} {words : List String} {roles : List Role}
    (hnames : desc.WellNamed) (h : Splits desc allowed words roles) (hroles : ¬ Undisguised roles) :
    (words.foldl (step desc) {}).positionals ≠ roles.filterMap Role.positional? := by
  have hfewer : (words.foldl (step desc) {}).positionals.length <
      0 + (roles.filterMap Role.positional?).length :=
    (length_positionals_foldl_step hnames h).2 hroles
  rw [Nat.zero_add] at hfewer
  exact fun heq => hfewer.ne (congrArg List.length heq)

end ArgumentState

end Completions

/-! ## The switches of commands -/

/-- The switches of every core command can be written. -/
theorem Command.wellNamed_core {entry : List String × Command} (h : entry ∈ core) :
    entry.2.params.WellNamed := by
  let names := core.flatMap fun entry => entry.2.params.switches.map (·.name)
  have hnames : names = ["color", "client", "try-client", "draft", "itersel", "client",
      "try-client", "draft", "itersel", "id", "add", "hidden", "group", "def-group", "scope",
      "group", "scope", "env-params", "shell-params", "allow-override", "hidden",
      "shell-completion", "docstring"] := rfl
  have hall : ∀ name ∈ names, IsSwitchName name ∧ name ≠ "-" := by
    rw [hnames]
    decide
  exact fun s hs => hall s.name (List.mem_flatMap.mpr ⟨entry, h, List.mem_map_of_mem hs⟩)

/-- A defined command has none, however its body gets its parameters. -/
theorem ParameterDesc.wellNamed_of_passing (passing : ParamPassing) :
    (if passing = .none then ParameterDesc.none else .verbatim).WellNamed := by
  split_ifs <;> exact List.forall_mem_nil _

/-! ## The completed argument -/

namespace Scene

open Completions Parameters

/-- What the next word of a command is for. -/
inductive Place where
  /-- The next positional, behind the earlier ones. -/
  | positional (earlier : List String)
  /-- The value of a switch. -/
  | value (switch : String)
  /-- The name of a switch. -/
  | switch
  deriving DecidableEq, Repr

/-- How a command completes a word in a place, if it does. -/
def completePlace (s : Scene) (fast : Bool) (command : Command) (query : String) :
    Place → Option (Completions × Option ShellCall)
  | .positional earlier => command.completer.map
      (s.completeWith fast (earlier ++ [query]) earlier.length (byteLength query.toList) query)
  | .value switch =>
    if command.switchSubjects.isEmpty then none
    else some (s.completeSwitchValue command switch query (byteLength query.toList), none)
  | .switch => some (.ofNames command.params.switchNames query (byteLength query.toList), none)

/-- The answer for a word in a place, with ranges of the line; `here` is where the word ends. -/
def answerIn (s : Scene) (fast : Bool) (here : Nat) (command : Command) (word : Token)
    (place : Place) : Completions × Option ShellCall :=
  match s.completePlace fast command word.content place with
  | some (completions, call) => (completions.shift word.start, call)
  | none => (.emptyAt here, none)

section Argument

variable {s : Scene} {fast : Bool} {command : Command} {args : List String} {query : String}
  {roles : List Role}

theorem completeArgument_positional
    (h : Splits command.params (!command.params.switchesAsPositional) (args ++ [query])
      (roles ++ [.positional query]))
    (hroles : Undisguised (roles ++ [.positional query])) :
    s.completeArgument fast command args query (byteLength query.toList) =
      s.completePlace fast command query (.positional (roles.filterMap Role.positional?)) := by
  obtain ⟨hearlier, hlast⟩ := undisguised_concat_iff.mp hroles
  have hstate := ArgumentState.foldl_step_of_undisguised h.of_concat_positional hearlier
  have hplain : ¬ (!decide (Role.terminator ∈ roles) && (switchText? query).isSome) = true := by
    rw [Bool.and_eq_true, isSome_switchText?_iff]
    rintro ⟨hended, hdash⟩
    simp [hlast hdash] at hended
  rw [completeArgument, hstate]
  simp only [hplain]
  rfl

theorem completeArgument_value (hnames : command.params.WellNamed) {name : String}
    (h : Splits command.params (!command.params.switchesAsPositional) (args ++ [query])
      (roles ++ [.switch name (some query)])) :
    s.completeArgument fast command args query (byteLength query.toList) =
      s.completePlace fast command query (.value name) := by
  rw [completeArgument]
  simp only [ArgumentState.valued_foldl_step hnames h]
  rfl

theorem completeArgument_switch (hdash : Dashed query) {found : List String}
    (hstate : args.foldl (ArgumentState.step command.params) {} = ⟨found, none, false⟩) :
    s.completeArgument fast command args query (byteLength query.toList) =
      s.completePlace fast command query .switch := by
  rw [completeArgument, hstate]
  simp [isSome_switchText?_iff.mpr hdash, completePlace]

end Argument

variable {s : Scene} {fast : Bool} {line : String} {cursor : Nat} {name word : Token}
  {args : List Token} {command : Command}

theorem complete_of_wordsAt (hwords : wordsAt line cursor = ⟨name :: args, word⟩)
    (hraw : word.kind = .raw) (hcommand : s.editor.commands.get? name.content = some command)
    {place : Place}
    (hplace : s.completeArgument fast command (args.map (·.content)) word.content
      (byteLength word.content.toList) = s.completePlace fast command word.content place) :
    s.complete fast line cursor = s.answerIn fast (floor line cursor) command word place := by
  have hword := inLine_wordsAt line cursor
  rw [hwords] at hword
  rw [complete, hwords, completeWords, ← byteLength_typed, hword.min_eq, answerIn, ← hplace]
  cases hanswer : s.completeArgument fast command (args.map (·.content)) word.content
      (byteLength word.content.toList) with
  | none => simp [hraw, hcommand, hanswer]
  | some answer => simp [hraw, hcommand, hanswer]

/-- **Completion agrees with the parser** on the arguments of a command, core or defined, as long
as no positional of the parser starts with a dash, unless behind a terminator. If the parser takes
the word before the cursor as a positional, then the completer is called with it and the earlier
ones; if as the value of a switch, then that value is completed; and where the parser admits a
switch, a word that starts with a dash is completed to the names of switches. Only the first needs
what is said of dashes: for if one positional starts with a dash, the walk misses positionals, or
takes the word itself for the name of a switch. -/
theorem completion_agrees_with_parsing (hwords : wordsAt line cursor = ⟨name :: args, word⟩)
    (hraw : word.kind = .raw) (hcommand : s.editor.commands.get? name.content = some command)
    (hnames : command.params.WellNamed) :
    let desc := command.params
    let before := args.map (·.content)
    let query := word.content
    let allowed := !desc.switchesAsPositional
    let answer := s.answerIn fast (floor line cursor) command word
    (∀ roles, Splits desc allowed (before ++ [query]) (roles ++ [.positional query]) →
      Undisguised (roles ++ [.positional query]) →
      s.complete fast line cursor = answer (.positional (roles.filterMap Role.positional?))) ∧
    (∀ roles switch, Splits desc allowed (before ++ [query]) (roles ++ [.switch switch (some query)]) →
      s.complete fast line cursor = answer (.value switch)) ∧
    (∀ roles, Splits desc allowed before roles → desc.Admits roles → Dashed query →
      s.complete fast line cursor = answer .switch) ∧
    (∀ roles, Splits desc allowed (before ++ [query]) (roles ++ [.positional query]) →
      ¬ Undisguised (roles ++ [.positional query]) →
      (before.foldl (ArgumentState.step desc) {}).positionals ≠ roles.filterMap Role.positional? ∨
      s.complete fast line cursor = answer .switch) := by
  intro desc before query allowed answer
  refine ⟨fun roles h hroles => ?_, fun roles switch h => ?_, fun roles h hadmits hdash => ?_,
    fun roles h hroles => ?_⟩
  · exact complete_of_wordsAt hwords hraw hcommand (completeArgument_positional h hroles)
  · exact complete_of_wordsAt hwords hraw hcommand (completeArgument_value hnames h)
  · rw [show allowed = true by simp [allowed, desc, hadmits.1]] at h
    obtain ⟨found, hfound⟩ := ArgumentState.foldl_step_of_admits hnames h hadmits
    exact complete_of_wordsAt hwords hraw hcommand (completeArgument_switch hdash hfound)
  · by_cases hearlier : Undisguised roles
    · have hlast : Dashed query ∧ Role.terminator ∉ roles := by
        simpa [undisguised_concat_iff, hearlier] using hroles
      have hstate := ArgumentState.foldl_step_of_undisguised h.of_concat_positional hearlier
      rw [decide_eq_false hlast.2] at hstate
      exact .inr (complete_of_wordsAt hwords hraw hcommand (completeArgument_switch hlast.1 hstate))
    · exact .inl (ArgumentState.positionals_foldl_step_ne hnames h.of_concat_positional hearlier)

/-- A switch, a terminator and a positional come before the word. -/
theorem completion_agrees_with_parsing_behind_terminator :
    let command : Command :=
      { params := ((ParameterDesc.bounded 1 none).withSwitch "add" false "").onlyAtStart
        completer := some (.subjects [.scope, .option]), body := .builtin .set }
    let editor := { Editor.new {} with commands := ⟨"command", [("set", command)]⟩ }
    let s : Scene := ⟨editor, { name := "main", document := 0, tracker := 0 }⟩
    let line := "set -add -- global tab"
    let word : Token := ⟨.raw, "tab", 19, 22⟩
    (s.complete false line 22).1 = ⟨["tabstop"], 19, 22⟩ ∧
      s.complete false line 22 = s.answerIn false 22 command word (.positional ["global"]) := by
  intro command editor s line word
  have hwords : wordsAt line 22 = ⟨[⟨.raw, "set", 0, 3⟩, ⟨.raw, "-add", 4, 8⟩, ⟨.raw, "--", 9, 11⟩,
      ⟨.raw, "global", 12, 18⟩], word⟩ := by decide +kernel
  have hadd : "-add" ≠ "--" ∧ switchName? "-add" = some "add" := ⟨by decide, rfl⟩
  have hdeclared : command.params.Declares "add" none := ⟨_, rfl, rfl⟩
  have hsplits : Splits command.params true (["-add", "--", "global"] ++ ["tab"])
      ([.switch "add" none, .terminator, .positional "global"] ++ [.positional "tab"]) :=
    .switch hadd.1 hadd.2 hdeclared (.terminator
      (.positional (absurd · Bool.false_ne_true) (.positional (absurd · Bool.false_ne_true) .nil)))
  exact ⟨by decide +kernel,
    (completion_agrees_with_parsing hwords rfl rfl (by decide)).1 _ hsplits trivial⟩

/-- What is defined takes every argument as a positional, but `-x` is missing in the call of its
completer; and the third parameter of `set` may well start with a dash. -/
theorem completion_misreads_dashes :
    let greet : Command :=
      { params := .verbatim, completer := some (.script "list-words"), body := .script "" .positional }
    let editor := Editor.new { shell := some fun _ => .ok "world" }
    let s : Scene := ⟨{ editor with commands := editor.commands.put "greet" greet },
      { name := "main", document := 0, tracker := 0 }⟩
    parse greet.params ["-x", "wo"] = .ok ⟨[], ["-x", "wo"]⟩ ∧
      (s.complete false "greet -x wo" 11).2.map (·.params) = some ["wo"] ∧
    (∃ set, s.editor.commands.get? "set" = some set ∧
      parse set.params ["global", "tabstop", "-a"] = .ok ⟨[], ["global", "tabstop", "-a"]⟩) ∧
      (s.complete false "set global tabstop -a" 21).1 = ⟨["-add"], 19, 21⟩ := by
  intro greet editor s
  have hwords : wordsAt "greet -x wo" 11 =
      ⟨[⟨.raw, "greet", 0, 5⟩, ⟨.raw, "-x", 6, 8⟩], ⟨.raw, "wo", 9, 11⟩⟩ := by decide +kernel
  refine ⟨rfl, ?_, ⟨_, rfl, rfl⟩, ?_⟩
  · rw [complete, hwords]
    rfl
  · decide +kernel

end Scene

end ModalEdit
