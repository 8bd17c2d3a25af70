/-!
# Parameters of a command

A command declares which switches it takes and how many positional parameters.
`Parameters.parse` splits an argument list accordingly. A `--` ends the
switches; a dash before a digit starts a negative number, not a switch.
-/

namespace ModalEdit

/-- How many positional parameters are accepted. -/
structure ArgCount where
  min : Nat
  /-- No limit if missing. -/
  max : Option Nat
  deriving DecidableEq, Repr

namespace ArgCount

/-- Whether `n` positionals are accepted. -/
def accepts (count : ArgCount) (n : Nat) : Bool :=
  count.min ≤ n && count.max.all (n ≤ ·)

/-- The wording of the count in messages. -/
def text (count : ArgCount) : String :=
  match count.max with
  | some max => if max = count.min then toString max else s!"{count.min} to {max}"
  | none => s!"at least {count.min}"

end ArgCount

/-- What can be wrong with an argument list. -/
inductive ParamError where
  | unknownSwitch (name : String)
  | missingSwitchValue (name : String)
  | wrongArgumentCount (expected : ArgCount) (got : Nat)
  /-- Two switches that cannot be used together. -/
  | invalidCombination (reason : String)
  deriving DecidableEq, Repr

/-- The wording shown to users. -/
def ParamError.message : ParamError → String
  | .unknownSwitch name => s!"unknown switch '-{name}'"
  | .missingSwitchValue name => s!"switch '-{name}' expects a value"
  | .wrongArgumentCount expected got =>
    s!"wrong argument count: expected {expected.text}, got {got}"
  | .invalidCombination reason => s!"invalid switch combination: {reason}"

/-- A switch that a command takes. -/
structure SwitchDesc where
  /-- Written after a dash. -/
  name : String
  /-- Whether the next parameter is the value of the switch. -/
  takesArg : Bool
  description : String := ""
  deriving DecidableEq, Repr

/-- The parameters that a command takes. -/
structure ParameterDesc where
  switches : List SwitchDesc := []
  count : ArgCount := ⟨0, none⟩
  /-- Switches end at the first positional. -/
  switchesOnlyAtStart : Bool := false
  /-- Every parameter is positional. -/
  switchesAsPositional : Bool := false
  deriving DecidableEq, Repr

namespace ParameterDesc

/-- Any number of positionals, no switches. -/
def any : ParameterDesc := {}

/-- From `min` to `max` positionals. -/
def bounded (min : Nat) (max : Option Nat) : ParameterDesc := { count := ⟨min, max⟩ }

/-- No parameters. -/
def none : ParameterDesc := bounded 0 (some 0)

/-- Everything is passed on as positionals. -/
def verbatim : ParameterDesc := { switchesAsPositional := true }

/-- Adds a switch. -/
def withSwitch (desc : ParameterDesc) (name : String) (takesArg : Bool) (description : String) :
    ParameterDesc :=
  { desc with switches := desc.switches ++ [⟨name, takesArg, description⟩] }

/-- Adds the switches that choose the context to run in. -/
def withContextSwitches (desc : ParameterDesc) : ParameterDesc :=
  ((desc.withSwitch "client" true "run in the given client context").withSwitch
    "try-client" true "run in the given client context if it exists").withSwitch
    "draft" false "run in a disposable copy of the context" |>.withSwitch
    "itersel" false "run once per selection (requires -draft)"

/-- Lets the first positional end the switches. -/
def onlyAtStart (desc : ParameterDesc) : ParameterDesc :=
  { desc with switchesOnlyAtStart := true }

/-- Makes every parameter positional. -/
def asPositional (desc : ParameterDesc) : ParameterDesc :=
  { desc with switchesAsPositional := true }

/-- The first switch of that name. -/
def switch? (desc : ParameterDesc) (name : String) : Option SwitchDesc :=
  desc.switches.find? (·.name = name)

/-- The written forms of the switches. -/
def switchNames (desc : ParameterDesc) : List String :=
  desc.switches.map fun s => "-" ++ s.name

end ParameterDesc

/-- An argument list split into switches and positionals. -/
structure Parameters where
  /-- The given switches, each once, with the value of those that take one. -/
  switches : List (String × Option String) := []
  positionals : List String := []
  deriving DecidableEq, Repr, Inhabited

namespace Parameters

/-- The name of the switch that a parameter is written as. -/
def switchName? (param : String) : Option String :=
  match param.toList with
  | '-' :: c :: rest => if c.isDigit then none else some (String.ofList (c :: rest))
  | _ => none

/-- Whether a switch was given. -/
def hasSwitch (p : Parameters) (name : String) : Bool := p.switches.any (·.1 = name)

/-- The value of a switch that takes one, if it was given. -/
def switchValue? (p : Parameters) (name : String) : Option String :=
  (p.switches.lookup name).join

/-- Positional number `index`, from zero. -/
def positional? (p : Parameters) (index : Nat) : Option String := p.positionals[index]?

/-- Adds a switch; a repeated one keeps its last value. -/
def addSwitch (p : Parameters) (name : String) (value : Option String) : Parameters :=
  { p with switches := p.switches.filter (·.1 ≠ name) ++ [(name, value)] }

/-- Adds a positional at the end. -/
def addPositional (p : Parameters) (param : String) : Parameters :=
  { p with positionals := p.positionals ++ [param] }

/-- Sorts the parameters that follow those collected in `p`. -/
def collect (desc : ParameterDesc) (switchesAllowed : Bool) (p : Parameters) :
    List String → Except ParamError Parameters
  | [] => .ok p
  | param :: rest =>
    if switchesAllowed ∧ param = "--" then collect desc false p rest
    else match if switchesAllowed then switchName? param else none with
      | some name =>
        match desc.switch? name, rest with
        | none, _ => .error (.unknownSwitch name)
        | some ⟨_, false, _⟩, rest =>
          collect desc switchesAllowed (p.addSwitch name none) rest
        | some ⟨_, true, _⟩, [] => .error (.missingSwitchValue name)
        | some ⟨_, true, _⟩, value :: rest =>
          collect desc switchesAllowed (p.addSwitch name (some value)) rest
      | none =>
        collect desc (switchesAllowed && !desc.switchesOnlyAtStart) (p.addPositional param) rest

/-- Matches an argument list against a description. -/
def parse (desc : ParameterDesc) (params : List String) : Except ParamError Parameters :=
  (collect desc (!desc.switchesAsPositional) {} params).bind fun p =>
    if desc.count.accepts p.positionals.length then .ok p
    else .error (.wrongArgumentCount desc.count p.positionals.length)

end Parameters

/-- Where and how a command runs. -/
structure ContextFlags where
  /-- Run in the context of this client, which must exist. -/
  client : Option String := none
  /-- Run in the context of this client if it can be had, else in the invoking one. -/
  tryClient : Option String := none
  /-- Run in a disposable copy of the target context. -/
  draft : Bool := false
  /-- Run once per selection; needs `draft`. -/
  itersel : Bool := false
  deriving DecidableEq, Repr, Inhabited

namespace ContextFlags

/-- Refuses `-itersel` without `-draft`. -/
def validate (flags : ContextFlags) : Except ParamError Unit :=
  if flags.itersel && !flags.draft then
    .error (.invalidCombination "-itersel requires -draft")
  else .ok ()

/-- Reads the switches added by `ParameterDesc.withContextSwitches`. -/
def ofParameters (p : Parameters) : Except ParamError ContextFlags :=
  let flags : ContextFlags :=
    ⟨p.switchValue? "client", p.switchValue? "try-client", p.hasSwitch "draft",
      p.hasSwitch "itersel"⟩
  flags.validate.map fun _ => flags

end ContextFlags

end ModalEdit
